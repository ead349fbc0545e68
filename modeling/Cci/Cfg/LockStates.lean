import Cci.Lib.Runs
import Cci.Cfg.ParamTyped

/-!
# The lock as a state machine

The documentation of `lock` and `unlock` describes a machine of three kinds of states; the code keeps
one pointer, in which the parameter's own address stands for a lock without a password.

* `LockState` — the documented states, with the documented `lock` and `unlock`;
* `CciParam.lockState` — the state of a parameter object in these terms;
* `LockCall` — a call, as the code and as the documentation has it;
* `Follows`, `Deviates` — a call that does what is documented, and one that cannot;
* `lock_states_exact` — sequences of calls.
-/

namespace Cci

open Effect

/-! ### The documented machine -/

/-- Unlocked, locked without a password, or locked with a password. -/
inductive LockState where
  | unlocked : LockState
  | internal : LockState
  | password (pwd : ℕ) : LockState
deriving DecidableEq, Repr

namespace LockState

/-- The state that a key locks a parameter with the address `this` into. -/
def ofKey (this key : ℕ) : LockState := if key = this then .internal else .password key

theorem ofKey_ne_unlocked (this key : ℕ) : ofKey this key ≠ .unlocked := by
  unfold ofKey
  split <;> simp

theorem ofKey_eq_internal {this key : ℕ} : ofKey this key = .internal ↔ key = this := by
  unfold ofKey
  split
  · rename_i h
    simp [h]
  · rename_i h
    simp [h]

theorem ofKey_inj {this key key' : ℕ} : ofKey this key = ofKey this key' ↔ key = key' := by
  constructor
  · intro h
    unfold ofKey at h
    split at h <;> split at h
    · omega
    · cases h
    · cases h
    · exact LockState.password.inj h
  · rintro rfl
    rfl

/-- `lock`, as documented: a parameter that is unlocked or locked without a password is locked with
the given one, and so is one that already is; no other password has an effect. -/
def lock (s key : LockState) : Bool × LockState :=
  if s = .unlocked ∨ s = .internal ∨ s = key then (true, key) else (false, s)

/-- `unlock`, as documented: it unlocks with the password of the lock, and tells whether the
parameter is unlocked now. -/
def unlock (s key : LockState) : Bool × LockState :=
  if s = key then (true, .unlocked) else (decide (s = .unlocked), s)

end LockState

/-! ### The calls -/

/-- A call of `lock` or `unlock`. -/
inductive LockCall where
  | lock (pwd : Option ℕ) : LockCall
  | unlock (pwd : Option ℕ) : LockCall
deriving DecidableEq, Repr

section

variable {T : Type}

/-- What the lock pointer stands for. -/
def CciParam.lockState (q : CciParam T) : LockState :=
  match q.mLockPwd with
  | none => .unlocked
  | some key => .ofKey q.this key

/-- The state that the password of a call stands for; NULL is the internal key. -/
def CciParam.keyState (q : CciParam T) (pwd : Option ℕ) : LockState :=
  .ofKey q.this (CciParamUntyped.keyOf q pwd)

namespace LockCall

/-- The call on a typed parameter. -/
def exec : LockCall → Eff Report (CciParam T) Bool
  | .lock pwd => fun q => (.ok (CciParamTyped.lock pwd q).1, (CciParamTyped.lock pwd q).2)
  | .unlock pwd => fun q => (.ok (CciParamUntyped.unlock pwd q).1, (CciParamUntyped.unlock pwd q).2)

/-- The documented call, for a parameter with the given address. -/
def documented (this : ℕ) : LockCall → Eff Report LockState Bool
  | .lock pwd => fun s => (.ok (s.lock (.ofKey this (pwd.getD this))).1,
      (s.lock (.ofKey this (pwd.getD this))).2)
  | .unlock pwd => fun s => (.ok (s.unlock (.ofKey this (pwd.getD this))).1,
      (s.unlock (.ofKey this (pwd.getD this))).2)

end LockCall

/-- In the state `q` the call answers and locks as documented, and changes nothing else (but
`fast_write`, which every `lock` clears). -/
structure Follows (q : CciParam T) (c : LockCall) : Prop where
  answer : (c.exec q).1 = (c.documented q.this q.lockState).1
  state : (c.exec q).2.lockState = (c.documented q.this q.lockState).2
  rest : (c.exec q).2 = { q with
    mLockPwd := (c.exec q).2.mLockPwd, fastWrite := (c.exec q).2.fastWrite }

/-- A password for a parameter that is locked without one, or the unlock of an unlocked parameter. -/
def Deviates (q : CciParam T) : LockCall → Prop
  | .lock pwd => q.lockState = .internal ∧ q.keyState pwd ≠ .internal
  | .unlock _ => q.lockState = .unlocked

theorem lockState_of_some {q : CciParam T} {key : ℕ} (h : q.mLockPwd = some key) :
    q.lockState = .ofKey q.this key := by
  rw [CciParam.lockState, h]

theorem lockState_of_none {q : CciParam T} (h : q.mLockPwd = none) : q.lockState = .unlocked := by
  rw [CciParam.lockState, h]

/-- The documented `lock` in terms of the lock pointer. -/
theorem documented_lock (q : CciParam T) (pwd : Option ℕ) :
    q.lockState.lock (q.keyState pwd) =
      if q.mLockPwd = none ∨ q.mLockPwd = some q.this ∨
          q.mLockPwd = some (CciParamUntyped.keyOf q pwd) then (true, q.keyState pwd)
      else (false, q.lockState) := by
  unfold LockState.lock
  cases h : q.mLockPwd with
  | none => simp [lockState_of_none h]
  | some key =>
    simp only [lockState_of_some h, CciParam.keyState, LockState.ofKey_ne_unlocked,
      LockState.ofKey_eq_internal, LockState.ofKey_inj, reduceCtorEq, Option.some.injEq, false_or]

/-- The documented `unlock` in terms of the lock pointer. -/
theorem documented_unlock (q : CciParam T) (pwd : Option ℕ) :
    q.lockState.unlock (q.keyState pwd) =
      if q.mLockPwd = some (CciParamUntyped.keyOf q pwd) then (true, .unlocked)
      else (decide (q.mLockPwd = none), q.lockState) := by
  unfold LockState.unlock
  cases h : q.mLockPwd with
  | none =>
    have hne : LockState.unlocked ≠ q.keyState pwd := Ne.symm (LockState.ofKey_ne_unlocked _ _)
    simp [lockState_of_none h, hne]
  | some key =>
    simp only [lockState_of_some h, CciParam.keyState, LockState.ofKey_ne_unlocked,
      LockState.ofKey_inj, reduceCtorEq, Option.some.injEq]

/-- What a `lock` does to the pointer. -/
theorem exec_lock_run (q : CciParam T) (pwd : Option ℕ) :
    (LockCall.lock pwd).exec q =
      if q.mLockPwd = none ∨ q.mLockPwd = some (CciParamUntyped.keyOf q pwd) then
        (.ok true, { q with mLockPwd := some (CciParamUntyped.keyOf q pwd), fastWrite := false })
      else (.ok false, { q with fastWrite := false }) := by
  have hkey : CciParamUntyped.keyOf ({ q with fastWrite := false } : CciParam T) pwd =
      CciParamUntyped.keyOf q pwd := rfl
  simp only [LockCall.exec, CciParamTyped.lock, CciParamUntyped.lock, hkey]
  cases h : q.mLockPwd with
  | none => simp
  | some key =>
    by_cases hk : key = CciParamUntyped.keyOf q pwd
    · simp [hk]
    · simp [hk, Ne.symm hk]

/-- What an `unlock` does to it. -/
theorem exec_unlock_run (q : CciParam T) (pwd : Option ℕ) :
    (LockCall.unlock pwd).exec q =
      if q.mLockPwd = some (CciParamUntyped.keyOf q pwd) then
        (.ok true, { q with mLockPwd := none })
      else (.ok false, q) := by
  unfold LockCall.exec CciParamUntyped.unlock
  by_cases h : q.mLockPwd = some (CciParamUntyped.keyOf q pwd)
  · simp [h]
  · simp [h, Ne.symm h]

theorem follows_lock_iff (q : CciParam T) (pwd : Option ℕ) :
    Follows q (.lock pwd) ↔ ¬Deviates q (.lock pwd) := by
  have hdoc : (LockCall.lock pwd).documented q.this q.lockState =
      (.ok (q.lockState.lock (q.keyState pwd)).1, (q.lockState.lock (q.keyState pwd)).2) := rfl
  have hstate : ({ q with
      mLockPwd := some (CciParamUntyped.keyOf q pwd), fastWrite := false } : CciParam T).lockState =
        q.keyState pwd := rfl
  by_cases hfree : q.mLockPwd = none ∨ q.mLockPwd = some (CciParamUntyped.keyOf q pwd)
  · -- the code takes the lock, as documented
    have hboth := documented_lock q pwd
    rw [if_pos (hfree.imp_right .inr)] at hboth
    refine iff_of_true ⟨?_, ?_, ?_⟩ ?_
    · rw [hdoc, hboth, exec_lock_run, if_pos hfree]
    · rw [hdoc, hboth, exec_lock_run, if_pos hfree]
      exact hstate
    · rw [exec_lock_run, if_pos hfree]
    · rintro ⟨hint, hother⟩
      rcases hfree with h | h
      · rw [lockState_of_none h] at hint
        cases hint
      · exact hother ((lockState_of_some h).symm.trans hint)
  · have hrefused := exec_lock_run q pwd
    rw [if_neg hfree] at hrefused
    by_cases hint : q.mLockPwd = some q.this
    · -- the documentation lets a lock without a password be replaced
      have hboth := documented_lock q pwd
      rw [if_pos (.inr (.inl hint))] at hboth
      refine iff_of_false (fun h => ?_) (not_not.2 ⟨?_, fun hk => ?_⟩)
      · have hanswer := h.answer
        rw [hdoc, hboth, hrefused] at hanswer
        cases hanswer
      · rw [lockState_of_some hint]
        exact LockState.ofKey_eq_internal.2 rfl
      · exact hfree (.inr (hint.trans (congrArg some (LockState.ofKey_eq_internal.1 hk).symm)))
    · have hnot : ¬(q.mLockPwd = none ∨ q.mLockPwd = some q.this ∨
          q.mLockPwd = some (CciParamUntyped.keyOf q pwd)) := by
        rintro (h | h | h)
        · exact hfree (.inl h)
        · exact hint h
        · exact hfree (.inr h)
      have hboth := documented_lock q pwd
      rw [if_neg hnot] at hboth
      refine iff_of_true ⟨?_, ?_, ?_⟩ ?_
      · rw [hdoc, hboth, hrefused]
      · rw [hdoc, hboth, hrefused]
        rfl
      · rw [hrefused]
      · rintro ⟨hinternal, -⟩
        cases h : q.mLockPwd with
        | none => exact hfree (.inl h)
        | some key =>
          rw [lockState_of_some h, LockState.ofKey_eq_internal] at hinternal
          exact hint (h.trans (congrArg some hinternal))

theorem follows_unlock_iff (q : CciParam T) (pwd : Option ℕ) :
    Follows q (.unlock pwd) ↔ ¬Deviates q (.unlock pwd) := by
  have hdoc : (LockCall.unlock pwd).documented q.this q.lockState =
      (.ok (q.lockState.unlock (q.keyState pwd)).1, (q.lockState.unlock (q.keyState pwd)).2) := rfl
  have hboth := documented_unlock q pwd
  have hrun := exec_unlock_run q pwd
  by_cases hkey : q.mLockPwd = some (CciParamUntyped.keyOf q pwd)
  · rw [if_pos hkey] at hboth hrun
    refine iff_of_true ⟨?_, ?_, ?_⟩ fun h => ?_
    · rw [hdoc, hboth, hrun]
    · rw [hdoc, hboth, hrun]
      rfl
    · rw [hrun]
    · rw [Deviates, lockState_of_some hkey] at h
      exact LockState.ofKey_ne_unlocked _ _ h
  · rw [if_neg hkey] at hboth hrun
    cases h : q.mLockPwd with
    | none =>
      -- the answer is `false` although the parameter is unlocked
      refine iff_of_false (fun hf => ?_) (not_not.2 (lockState_of_none h))
      have hanswer := hf.answer
      rw [hdoc, hboth, hrun, h] at hanswer
      cases hanswer
    | some key =>
      refine iff_of_true ⟨?_, ?_, ?_⟩ fun hd => ?_
      · rw [hdoc, hboth, hrun, h]
        rfl
      · rw [hdoc, hboth, hrun]
      · rw [hrun]
      · rw [Deviates, lockState_of_some h] at hd
        exact LockState.ofKey_ne_unlocked _ _ hd

theorem follows_iff (q : CciParam T) (c : LockCall) : Follows q c ↔ ¬Deviates q c := by
  cases c with
  | lock pwd => exact follows_lock_iff q pwd
  | unlock pwd => exact follows_unlock_iff q pwd

/-! ### Sequences of calls -/

theorem this_exec (q : CciParam T) (c : LockCall) : (c.exec q).2.this = q.this := by
  cases c with
  | lock pwd =>
    rw [exec_lock_run]
    split <;> rfl
  | unlock pwd =>
    rw [exec_unlock_run]
    split <;> rfl

/-- A sequence of calls that do what is documented is a run of the documented machine. -/
theorem run_follows (q : CciParam T) (cs : List LockCall)
    (h : ∀ ds c, ds ++ [c] <+: cs → Follows (states LockCall.exec q ds) c) :
    outcomes LockCall.exec q cs = outcomes (LockCall.documented q.this) q.lockState cs ∧
      (states LockCall.exec q cs).lockState =
        states (LockCall.documented q.this) q.lockState cs ∧
      (states LockCall.exec q cs).this = q.this := by
  induction cs using List.reverseRecOn with
  | nil => exact ⟨rfl, rfl, rfl⟩
  | append_singleton cs c ih =>
    obtain ⟨hanswers, hstate, hthis⟩ := ih fun ds d hds => h ds d (hds.trans (List.prefix_append _ _))
    have hlast := h cs c List.prefix_rfl
    have hanswer := hlast.answer
    have hend := hlast.state
    rw [hthis, hstate] at hanswer hend
    refine ⟨?_, ?_, ?_⟩
    · rw [outcomes_snoc, outcomes_snoc, hanswers, hanswer]
    · rw [states_snoc, states_snoc, hend]
    · rw [states_snoc, this_exec, hthis]

/-- **The lock state machine.**  In every sequence of `lock` and `unlock` calls on a parameter each
call does what is documented if and only if none of them gives a password to a parameter that is
locked without one or unlocks an unlocked parameter; and then the sequence is a run of the documented
machine. -/
theorem lock_states_exact (q : CciParam T) (cs : List LockCall) :
    ((∀ ds c, ds ++ [c] <+: cs → Follows (states LockCall.exec q ds) c) ↔
      ∀ ds c, ds ++ [c] <+: cs → ¬Deviates (states LockCall.exec q ds) c) ∧
    ((∀ ds c, ds ++ [c] <+: cs → ¬Deviates (states LockCall.exec q ds) c) →
      outcomes LockCall.exec q cs = outcomes (LockCall.documented q.this) q.lockState cs ∧
        (states LockCall.exec q cs).lockState =
          states (LockCall.documented q.this) q.lockState cs) := by
  have hiff : (∀ ds c, ds ++ [c] <+: cs → Follows (states LockCall.exec q ds) c) ↔
      ∀ ds c, ds ++ [c] <+: cs → ¬Deviates (states LockCall.exec q ds) c :=
    forall₃_congr fun ds c _ => follows_iff _ c
  refine ⟨hiff, fun h => ?_⟩
  obtain ⟨hanswers, hstate, -⟩ := run_follows q cs (hiff.2 h)
  exact ⟨hanswers, hstate⟩

end

/-- A parameter with the address 1, locked without a password, refuses the password 5; and a second
unlock denies that it is unlocked. -/
theorem lock_states_differ :
    let q : CciParam ℕ := {
      mName := "top.p", mValue := 0, mDefaultValue := 0, mValueOrigin := .named "owner",
      mOriginator := .named "owner", this := 1 }
    outcomes LockCall.exec q [.lock none, .lock (some 5)] = [.ok true, .ok false] ∧
      ¬Follows (states LockCall.exec q [.lock none]) (.lock (some 5)) ∧
      outcomes LockCall.exec q [.lock none, .unlock none, .unlock none] =
        [.ok true, .ok true, .ok false] ∧
      ¬Follows (states LockCall.exec q [.lock none, .unlock none]) (.unlock none) := by
  intro q
  refine ⟨rfl, fun h => ?_, rfl, fun h => ?_⟩
  · have hanswer := h.answer
    cases hanswer
  · have hanswer := h.answer
    cases hanswer

end Cci
