import Cci.Lib.Propagation
import Cci.Cfg.WriteOutcome
import Cci.Cfg.FastFlags
import Cci.Cfg.Reentrancy

/-!
# Parameters kept in step by callbacks

`ex11_param_value_sync` links parameters by post-write callbacks that write the new value on to
another parameter.  The links go both ways, so a write comes back to the parameter it started from;
the guard of its callback list stops it there.

* `untypedPostWriteCallback` — the callback body; `synchValues`, `paramValueSync` — the linking;
* `Network`, `Network.Ready` — the linked parameters and the states they are in between writes;
* `commit_spreads` — what one write does to the network;
* `linked_params_agree` — every run of commands on linked parameters.
-/

namespace Cci

open Effect CciParamTyped VectorLoop Propagation

variable {D : Design} {B : Type}

namespace ValueSync

/-! ### The module -/

/-- A `cci_param_handle`: the parameter and the originator the handle writes for. -/
abbrev ParamHandle (D : Design) : Type := D.Param × CciOriginator

/-- The table of the functors `sc_bind(&untyped_post_write_callback, this, _1, handle)`: `bound`
gives the handle an object was bound to, and the body is
`synced_handle.set_cci_value(ev.new_value)`. -/
def untypedPostWriteCallback (bound : CallbackImpl → Option (ParamHandle D)) (f : CallbackImpl) :
    Payload D → Prog D
  | .untyped _ (.write _ newValue _ _) =>
      match bound f with
      | none => .ret true
      | some (p, o) => .cmd (.setCciValue p newValue none o) fun
          | .ok _ => .ret true
          | .error r => .raise r
  | _ => .ret true

/-- The signature of `untyped_post_write_callback`. -/
def untypedPostWrite : Signature := ⟨.writeEvent none, .void⟩

section

variable [CciBrokerIf B D.BrokerHandle D.CciValue]

/-- `synchValues(_param_handle_1, _param_handle_2)`, where `f₁` is the functor bound to the second
handle and `f₂` the one bound to the first. -/
def synchValues (I : Interp D B) (h₁ h₂ : ParamHandle D) (f₁ f₂ : CallbackImpl) :
    CciM D B Unit := do
  let c ← getCciValue I h₁.1 h₁.2
  let _ ← exec I (.setCciValue h₂.1 c none h₂.2)
  let _ ← exec I (.handleRegisterCallback h₁.1 .postWrite (some (.impl f₁)) h₁.2)
  let _ ← exec I (.handleRegisterCallback h₂.1 .postWrite (some (.impl f₂)) h₂.2)

/-- The loop of the constructor: the first handle of the list is linked with each of the others. -/
def paramValueSync (I : Interp D B) (h₀ : ParamHandle D) :
    List (ParamHandle D × CallbackImpl × CallbackImpl) → CciM D B Unit
  | [] => pure ()
  | (h, f, f') :: rest => do
      synchValues I h₀ h f f'
      paramValueSync I h₀ rest

end

/-! ### Networks -/

/-- The `cci_value` of a parameter. -/
def shows (w : World D B) (p : D.Param) : D.CciValue := (D.pack p (w.param p).mValue).2

/-- The parameters an entry of a post-write list passes values on to. -/
def entryTargets (bound : CallbackImpl → Option (ParamHandle D)) (e : CallbackObj) : Set D.Param :=
  {x | ∃ f o, e.callback = some (.impl f) ∧ bound f = some (x, o)}

/-- A group of parameters with the entries of their post-write lists. -/
structure Network (D : Design) where
  group : Finset D.Param
  entries : D.Param → List CallbackObj

namespace Network

variable (N : Network D) (bound : CallbackImpl → Option (ParamHandle D))

/-- The parameters `p` passes its value on to. -/
def targets (p : D.Param) : Set D.Param := {x | ∃ e ∈ N.entries p, x ∈ entryTargets bound e}

/-- The entries of the lists link parameters of the group, which can be written and whose values
have a form that all of them understand. -/
structure Linked : Prop where
  outside : ∀ p, p ∉ N.group → N.entries p = []
  entry : ∀ p ∈ N.group, ∀ e ∈ N.entries p, ∃ f x o, e.callback = some (.impl f) ∧
    f.sig = untypedPostWrite ∧ bound f = some (x, o) ∧ x ∈ N.group
  mutable : ∀ p ∈ N.group, D.mutableType p ≠ .immutableParam
  packs : ∀ p ∈ N.group, ∀ v, (D.pack p v).1 = true
  unpacks : ∀ p ∈ N.group, ∀ x ∈ N.group, ∀ v, (D.unpack x (D.uninit x) (D.pack p v).2).1 = true
  repacks : ∀ p ∈ N.group, ∀ x ∈ N.group, ∀ v,
    (D.pack x (D.unpack x (D.uninit x) (D.pack p v).2).2).2 = (D.pack p v).2

/-- A parameter of the group is unlocked and has no callbacks but those of the network, and its
pre-write list is not under dispatch. -/
structure Member (p : D.Param) (q : CciParam (D.Value p)) : Prop where
  unlocked : q.mLockPwd = none
  vec : ∀ k, q.vec k = if k = .postWrite then N.entries p else []
  preWrite : q.oncall .preWrite = false
  fastWrite : q.fastWrite = true → N.entries p = []

def Ready (w : World D B) : Prop := ∀ p ∈ N.group, N.Member p (w.param p)

/-- The parameters whose post-write list is under dispatch. -/
def busy (w : World D B) : Set D.Param := {p | (w.param p).oncall .postWrite = true}

/-- How many parameters of the group are not. -/
def free (w : World D B) : ℕ :=
  (N.group.filter fun p => (w.param p).oncall .postWrite = false).card

/-- What a write of the `cci_value` `c` to a parameter of the group, with all that its callbacks do,
makes of the world. -/
structure Passes (c : D.CciValue) (w t : World D B) : Prop where
  ready : N.Ready t
  busy : busy t = busy w
  spreads : Spreads (N.targets bound) (Network.busy w) c (shows w) (shows t)

variable {N bound}

/-! ### Worlds that differ in one parameter -/

theorem shows_setParam (w : World D B) (p : D.Param) (q : CciParam (D.Value p)) :
    shows (w.setParam p q) = Function.update (shows w) p (D.pack p q.mValue).2 := by
  funext x
  by_cases hx : x = p
  · subst hx
    simp only [shows, World.param_setParam, Function.update_self]
  · simp only [shows, World.param_setParam_of_ne w q hx, Function.update_of_ne hx]

theorem shows_keep {w : World D B} {p : D.Param} {q : CciParam (D.Value p)}
    (hq : q.mValue = (w.param p).mValue) : shows (w.setParam p q) = shows w := by
  rw [shows_setParam, hq]
  exact Function.update_eq_self p (shows w)

theorem mem_busy {w : World D B} {p : D.Param} :
    p ∈ busy w ↔ (w.param p).oncall .postWrite = true := Iff.rfl

theorem busy_setParam {w : World D B} {p : D.Param} {q : CciParam (D.Value p)}
    (hq : q.oncall .postWrite = (w.param p).oncall .postWrite) : busy (w.setParam p q) = busy w := by
  ext x
  by_cases hx : x = p
  · subst hx
    rw [mem_busy, mem_busy, World.param_setParam, hq]
  · rw [mem_busy, mem_busy, World.param_setParam_of_ne w q hx]

theorem Ready.setParam {w : World D B} (hw : N.Ready w) {p : D.Param} {q : CciParam (D.Value p)}
    (hq : p ∈ N.group → N.Member p q) : N.Ready (w.setParam p q) := by
  intro x hx
  by_cases hxp : x = p
  · subst hxp
    rw [World.param_setParam]
    exact hq hx
  · rw [World.param_setParam_of_ne w q hxp]
    exact hw x hx

/-- An assignment to a parameter that keeps its lock and its callbacks. -/
theorem Member.assign {p : D.Param} {q q' : CciParam (D.Value p)} (hq : N.Member p q)
    (hlock : q'.mLockPwd = q.mLockPwd) (hcallbacks : q'.callbacks = q.callbacks)
    (hfast : q'.fastWrite = true → N.entries p = []) : N.Member p q' where
  unlocked := hlock.trans hq.unlocked
  vec k := by
    rw [CciParam.vec, hcallbacks]
    exact hq.vec k
  preWrite := by
    rw [CciParam.oncall, hcallbacks]
    exact hq.preWrite
  fastWrite := hfast

theorem Ready.of_store {w t : World D B} (hw : N.Ready w) (ht : t.store.params = w.store.params) :
    N.Ready t := by
  intro p hp
  have hparam : t.param p = w.param p := congrFun ht p
  rw [hparam]
  exact hw p hp

theorem shows_of_store {w t : World D B} (ht : t.store.params = w.store.params) :
    shows t = shows w := by
  funext x
  have hx : t.param x = w.param x := congrFun ht x
  rw [shows, shows, hx]

theorem busy_of_store {w t : World D B} (ht : t.store.params = w.store.params) :
    busy t = busy w := by
  ext x
  have hx : t.param x = w.param x := congrFun ht x
  rw [mem_busy, mem_busy, hx]

theorem free_of_busy {w t : World D B} (h : busy t = busy w) : N.free t = N.free w := by
  have hiff : ∀ p, (t.param p).oncall .postWrite = false ↔ (w.param p).oncall .postWrite = false := by
    intro p
    rw [← Bool.not_eq_true, ← Bool.not_eq_true, ← mem_busy, ← mem_busy, h]
  unfold free
  simp only [hiff]

namespace Passes

variable {c : D.CciValue}

theorem trans {w u t : World D B} (h : N.Passes bound c w u) (h' : N.Passes bound c u t) :
    N.Passes bound c w t :=
  ⟨h'.ready, h'.busy.trans h.busy, h.spreads.trans (h.busy ▸ h'.spreads)⟩

theorem of_store {w t : World D B} (hw : N.Ready w) (ht : t.store.params = w.store.params) :
    N.Passes bound c w t :=
  ⟨hw.of_store ht, busy_of_store ht, shows_of_store ht ▸ Spreads.refl _ _ _ _⟩

/-- An assignment that leaves the value alone. -/
theorem setParam {w : World D B} (hw : N.Ready w) {p : D.Param} {q : CciParam (D.Value p)}
    (hvalue : q.mValue = (w.param p).mValue) (hlock : q.mLockPwd = (w.param p).mLockPwd)
    (hcallbacks : q.callbacks = (w.param p).callbacks)
    (hfast : p ∈ N.group → q.fastWrite = true → N.entries p = []) :
    N.Passes bound c w (w.setParam p q) := by
  refine ⟨hw.setParam fun hp => (hw p hp).assign hlock hcallbacks (hfast hp), busy_setParam ?_, ?_⟩
  · rw [CciParam.oncall, hcallbacks, CciParam.oncall]
  · rw [shows_keep hvalue]
    exact Spreads.refl _ _ _ _

end Passes

/-! ### One write -/

variable (N bound) in
/-- Under `I`, a commit to a parameter of the group comes back with its value passed on, as long as
at most `m` post-write lists of the group are not under dispatch. -/
def Commits (I : Interp D B) (m : ℕ) : Prop :=
  ∀ (w : World D B) (p : D.Param) (v : D.Value p) (o : CciOriginator) (oldValue : D.Value p),
    N.Ready w → p ∈ N.group → N.free w ≤ m →
    ∃ t, commit I p v o oldValue w = (.ok (), t) ∧
      N.Passes bound (D.pack p v).2 w t ∧ shows t p = (D.pack p v).2

section

variable {I : Interp D B} {m : ℕ} {w : World D B} {p : D.Param}

/-- The gates of a write that no key protects. -/
theorem Ready.writeRefusal (hN : N.Linked bound) (hw : N.Ready w) (hp : p ∈ N.group) :
    writeRefusal p none (w.param p) = none := by
  simp [Cci.writeRefusal, hN.mutable p hp, CciParamUntyped.isLocked, (hw p hp).unlocked]

theorem Ready.preWriteCallback (hw : N.Ready w) (hp : p ∈ N.group) (I : Interp D B) (v : D.Value p)
    (o : CciOriginator) :
    preWriteCallback I p v o w = (.ok true, w.record (.dispatch p .preWrite w.stack)) :=
  preWriteCallback_quiet (hw p hp).preWrite ((hw p hp).vec .preWrite) I v o

variable (hI : Commits N bound I m)

include hI

/-- A commit that follows a pre-write dispatch. -/
theorem Commits.recorded (hw : N.Ready w) (hp : p ∈ N.group) (hfree : N.free w ≤ m)
    (e : TraceEvent D B) (v : D.Value p) (o : CciOriginator) (oldValue : D.Value p) :
    ∃ t, commit I p v o oldValue (w.record e) = (.ok (), t) ∧
      N.Passes bound (D.pack p v).2 w t ∧ shows t p = (D.pack p v).2 := by
  have hrecord : N.Passes bound (D.pack p v).2 w (w.record e) := .of_store hw rfl
  have hfree' : N.free (w.record e) ≤ m := by rwa [free_of_busy hrecord.busy]
  obtain ⟨t, hrun, hpass, hshow⟩ := hI _ p v o oldValue hrecord.ready hp hfree'
  exact ⟨t, hrun, hrecord.trans hpass, hshow⟩

theorem Commits.rawWrite (hw : N.Ready w) (hp : p ∈ N.group) (hfree : N.free w ≤ m) (v : D.Value p)
    (o : CciOriginator) :
    ∃ t, rawWrite I p v o w = (.ok true, t) ∧
      N.Passes bound (D.pack p v).2 w t ∧ shows t p = (D.pack p v).2 := by
  rw [rawWrite_passed (hw.preWriteCallback hp I v o)]
  obtain ⟨t, hrun, hpass, hshow⟩ := hI.recorded hw hp hfree (.dispatch p .preWrite w.stack) v o
    (w.param p).mValue
  have hfast : fastWriteAllowed p o (t.param p) = true → N.entries p = [] := fun hallowed =>
    ((hpass.ready p hp).vec .postWrite).symm.trans (fastWriteAllowed_iff.1 hallowed).2.2.2.1
  have hlast : N.Passes bound (D.pack p v).2 t
      (t.setParam p { t.param p with fastWrite := fastWriteAllowed p o (t.param p) }) :=
    .setParam hpass.ready rfl rfl rfl fun _ => hfast
  exact ⟨_, finishWrite_ok hrun, hpass.trans hlast, hlast.spreads.holds hshow⟩

theorem Commits.applyValue (hw : N.Ready w) (hp : p ∈ N.group) (hfree : N.free w ≤ m)
    (v : D.Value p) (o : CciOriginator) (old : CciParam (D.Value p) → D.Value p) :
    ∃ t, applyValue I p v o old w = (.ok true, t) ∧ N.Passes bound (D.pack p v).2 w t := by
  rw [applyValue_passed (hw.preWriteCallback hp I v o)]
  obtain ⟨t, hrun, hpass, -⟩ := hI.recorded hw hp hfree (.dispatch p .preWrite w.stack) v o
    (old (w.param p))
  exact ⟨t, Eff.bind_run_ok hrun _, hpass⟩

/-- `synced_handle.set_cci_value(ev.new_value)`, where the value comes from the group. -/
theorem Commits.deliver (hN : N.Linked bound) [CciBrokerIf B D.BrokerHandle D.CciValue]
    (hw : N.Ready w) (hp : p ∈ N.group) {x : D.Param}
    (hx : x ∈ N.group) (hfree : N.free w ≤ m) (v : D.Value p) (o : CciOriginator) :
    ∃ t, exec I (.setCciValue x (D.pack p v).2 none o) w = (.ok .unit, t) ∧
      N.Passes bound (D.pack p v).2 w t ∧ shows t x = (D.pack p v).2 := by
  let c := (D.pack p v).2
  let w₁ := w.record (.step (.setCciValue x c none o) w.store)
  have hstep : N.Passes bound c w w₁ := .of_store hw rfl
  have hfree' : N.free w₁ ≤ m := by rwa [free_of_busy hstep.busy]
  obtain ⟨t, hrun, hpass, hshow⟩ := hI.rawWrite hstep.ready hx hfree' (D.unpack x (D.uninit x) c).2 o
  rw [hN.repacks p hp x hx v] at hpass hshow
  have hset : setCciValue I x c none o w₁ = (.ok true, t) := by
    have hget : cciValueGet x c w₁ = (.ok (D.unpack x (D.uninit x) c).2, w₁) := by
      rw [cciValueGet_run, if_pos (hN.unpacks p hp x hx v)]
    rw [setCciValue, Eff.bind_run_ok hget, setRawValue_eq, hstep.ready.writeRefusal hN hx]
    exact hrun
  have hdone : N.Passes bound c t (t.record (.done (.setCciValue x c none o) t.store)) :=
    .of_store hpass.ready rfl
  refine ⟨_, ?_, (hstep.trans hpass).trans hdone, hdone.spreads.holds hshow⟩
  have hcmd : (Cmd.setCciValue x c none o).run I w₁ = (.ok .unit, t) := Eff.bind_run_ok hset _
  rw [exec, Eff.modify_bind_run, Eff.finalizing, hcmd]

end

/-! ### What a dispatch passes on -/

section

variable [CciBrokerIf B D.BrokerHandle D.CciValue]
variable {n m : ℕ} {u : World D B} {p : D.Param}

/-- The untyped callback of an entry, recovered for the type of the parameter. -/
theorem typedHandle_untyped {e : CallbackObj} {f : CallbackImpl} (hcb : e.callback = some (.impl f))
    (hsig : f.sig = untypedPostWrite) :
    typedHandle p .postWrite e =
      some (.adapt f (CallbackKind.signature .postWrite (D.typeId p))) := by
  unfold typedHandle
  rw [hcb]
  simp [cciCallbackTypedHandle, CallbackHandle.validFor, Held.sig, Held.get, hsig, untypedPostWrite,
    CallbackKind.signature, CallbackKind.argType, CallbackKind.resultType, genericAdaptConvert,
    ArgType.genericType]

/-- One round of the post-write loop hands the value to the parameter its callback is bound to. -/
theorem entry_passes (hN : N.Linked bound)
    (hI : Commits N bound (interp (untypedPostWriteCallback bound) n : Interp D B) m)
    (hu : N.Ready u) (hp : p ∈ N.group) (hfree : N.free u ≤ m) {e : CallbackObj}
    (he : e ∈ N.entries p) (oldValue v : D.Value p) (o : CciOriginator) :
    ∃ t, observerEntry (interp (untypedPostWriteCallback bound) (n + 1)) p .postWrite
        (fun _ entry => .write oldValue v o entry.originator) e () u = (.ok (), t) ∧
      N.Passes bound (D.pack p v).2 u t ∧ ∀ x ∈ entryTargets bound e, shows t x = (D.pack p v).2 := by
  obtain ⟨f, x, o', hcb, hsig, hbound, hx⟩ := hN.entry p hp e he
  let ev : ParamEvent (D.Value p) := .write oldValue v o e.originator
  obtain ⟨u₁, hwrap, hstore, -⟩ := genericWrap_run p ev u
  have hev : untypedEvent p ev =
      .ok (.write (D.pack p oldValue).2 (D.pack p v).2 o e.originator) := by
    simp only [ev, untypedEvent, cciOf, hN.packs p hp, true_or, if_true]
    rfl
  rw [hev] at hwrap
  let u₂ := u₁.record (.invoked p .postWrite e ev)
  have hlogged : N.Passes bound (D.pack p v).2 u u₂ := by
    refine .of_store hu ?_
    show u₁.store.params = u.store.params
    rw [hstore]
  have hfree' : N.free u₂ ≤ m := by rwa [free_of_busy hlogged.busy]
  obtain ⟨t, hrun, hpass, hshow⟩ := hI.deliver hN hlogged.ready hp hx hfree' v o'
  have hbody : runProg (interp (untypedPostWriteCallback bound) n) (untypedPostWriteCallback bound f
      (.untyped p (.write (D.pack p oldValue).2 (D.pack p v).2 o e.originator))) u₂ =
      (.ok true, t) := by
    simp only [untypedPostWriteCallback, hbound, runProg]
    rw [Eff.bind_run, Eff.attempt, hrun]
    rfl
  refine ⟨t, ?_, hlogged.trans hpass, ?_⟩
  · simp only [observerEntry, typedHandle_untyped hcb hsig, Option.isSome_some, if_true, getParam,
      Eff.gets_bind_run, invokeTyped, invokeHeld]
    rw [Eff.bind_run, Eff.bind_run, hwrap]
    simp only [ending_ok, log, Eff.modify_bind_run]
    have hcall : (interp (untypedPostWriteCallback bound) (n + 1) : Interp D B).call f
        (.untyped p (.write (D.pack p oldValue).2 (D.pack p v).2 o e.originator)) u₂ =
        (.ok true, t) := hbody
    rw [hcall]
    rfl
  · rintro y ⟨f', o'', hcb', hbound'⟩
    rw [hcb] at hcb'
    cases hcb'
    rw [hbound] at hbound'
    cases hbound'
    exact hshow

/-- The post-write loop hands the value to all of them. -/
theorem entries_pass (hN : N.Linked bound)
    (hI : Commits N bound (interp (untypedPostWriteCallback bound) n : Interp D B) m)
    (hp : p ∈ N.group) (oldValue v : D.Value p) (o : CciOriginator) (ℓ : List CallbackObj)
    (hℓ : ∀ e ∈ ℓ, e ∈ N.entries p) {u : World D B} (hu : N.Ready u) (hfree : N.free u ≤ m) :
    ∃ t, runEach (observerEntry (interp (untypedPostWriteCallback bound) (n + 1)) p .postWrite
        fun _ entry => .write oldValue v o entry.originator) ℓ () u = (.ok (), t) ∧
      N.Passes bound (D.pack p v).2 u t ∧
      ∀ e ∈ ℓ, ∀ x ∈ entryTargets bound e, shows t x = (D.pack p v).2 := by
  induction ℓ generalizing u with
  | nil => exact ⟨u, rfl, .of_store hu rfl, fun e he => absurd he List.not_mem_nil⟩
  | cons e ℓ ih =>
    obtain ⟨t₁, hrun₁, hpass₁, hshow₁⟩ :=
      entry_passes hN hI hu hp hfree (hℓ e List.mem_cons_self) oldValue v o
    have hfree₁ : N.free t₁ ≤ m := by rwa [free_of_busy hpass₁.busy]
    obtain ⟨t, hrun, hpass, hshow⟩ :=
      ih (fun e' he' => hℓ e' (List.mem_cons_of_mem _ he')) hpass₁.ready hfree₁
    refine ⟨t, (Eff.bind_run_ok hrun₁ _).trans hrun, hpass₁.trans hpass, fun e' he' x hx => ?_⟩
    rcases List.mem_cons.1 he' with heq | htail
    · subst heq
      exact hpass.spreads.holds (hshow₁ x hx)
    · exact hshow e' htail x hx

end

/-! ### The dispatch around it -/

theorem Member.setOncall {p : D.Param} {q : CciParam (D.Value p)} (hq : N.Member p q) (b : Bool) :
    N.Member p (q.setOncall .postWrite b) where
  unlocked := hq.unlocked
  vec k := (CciParam.vec_setOncall q _ k b).trans (hq.vec k)
  preWrite := (CciParam.oncall_setOncall q _ _ b).trans hq.preWrite
  fastWrite := hq.fastWrite

theorem Ready.enterDispatch {w : World D B} (hw : N.Ready w) (p : D.Param) :
    N.Ready (enterDispatch p .postWrite w) :=
  (hw.setParam fun hp => (hw p hp).setOncall true).of_store rfl

theorem Ready.leaveDispatch {w : World D B} (hw : N.Ready w) (p : D.Param) :
    N.Ready (leaveDispatch p .postWrite w) :=
  (hw.setParam fun hp => (hw p hp).setOncall false).of_store rfl

theorem busy_enterDispatch (p : D.Param) (w : World D B) :
    busy (enterDispatch p .postWrite w) = insert p (busy w) := by
  ext x
  by_cases hx : x = p
  · subst hx
    simp only [mem_busy, param_enterDispatch, CciParam.oncall_setOncall, if_true, Set.mem_insert_iff,
      true_or]
  · rw [mem_busy, param_enterDispatch_of_ne w _ hx, Set.mem_insert_iff, or_iff_right hx, mem_busy]

theorem busy_leaveDispatch {p : D.Param} {w t : World D B} (hp : p ∉ busy w)
    (ht : busy t = insert p (busy w)) : busy (leaveDispatch p .postWrite t) = busy w := by
  ext x
  by_cases hx : x = p
  · subst hx
    refine iff_of_false ?_ hp
    rw [mem_busy, param_leaveDispatch, CciParam.oncall_setOncall, if_pos rfl]
    exact Bool.false_ne_true
  · rw [mem_busy, param_leaveDispatch_of_ne t _ hx, ← mem_busy, ht, Set.mem_insert_iff,
      or_iff_right hx]

theorem shows_enterDispatch (p : D.Param) (w : World D B) :
    shows (enterDispatch p .postWrite w) = shows w :=
  shows_keep (q := (w.param p).setOncall .postWrite true) rfl

theorem shows_leaveDispatch (p : D.Param) (w : World D B) :
    shows (leaveDispatch p .postWrite w) = shows w :=
  shows_keep (q := (w.param p).setOncall .postWrite false) rfl

/-- Putting a list under dispatch leaves one list less that is not. -/
theorem free_lt {w t : World D B} {p : D.Param} (hp : p ∈ N.group) (hfree : p ∉ busy w)
    (ht : busy t = insert p (busy w)) : N.free t < N.free w := by
  have hmem : ∀ (u : World D B) (x : D.Param), (u.param x).oncall .postWrite = false ↔ x ∉ busy u :=
    fun u x => by rw [mem_busy, Bool.not_eq_true]
  refine Finset.card_lt_card ⟨fun x hx => ?_, fun hsub => ?_⟩
  · rw [Finset.mem_filter, hmem, ht, Set.mem_insert_iff, not_or] at hx
    exact Finset.mem_filter.2 ⟨hx.1, (hmem w x).2 hx.2.2⟩
  · have hin := hsub (Finset.mem_filter.2 ⟨hp, (hmem w p).2 hfree⟩)
    rw [Finset.mem_filter, hmem, ht] at hin
    exact hin.2 (Set.mem_insert p _)

/-- The two assignments of a write. -/
theorem Ready.stored {w : World D B} (hw : N.Ready w) (p : D.Param) (v : D.Value p)
    (o : CciOriginator) : N.Ready (w.setParam p (stored v o (w.param p))) :=
  hw.setParam fun hp => (hw p hp).assign rfl rfl (hw p hp).fastWrite

/-- A write to a parameter whose post-write list is under dispatch tells nobody. -/
theorem commit_busy {w : World D B} (hw : N.Ready w) {p : D.Param} (hbusy : p ∈ busy w)
    (I : Interp D B) (v : D.Value p) (o : CciOriginator) (oldValue : D.Value p) :
    ∃ t, commit I p v o oldValue w = (.ok (), t) ∧
      N.Passes bound (D.pack p v).2 w t ∧ shows t p = (D.pack p v).2 := by
  have honcall : ((w.setParam p (Cci.stored v o (w.param p))).param p).oncall .postWrite = true := by
    rw [World.param_setParam]
    exact hbusy
  refine ⟨w.setParam p (Cci.stored v o (w.param p)), ?_, ⟨hw.stored p v o, busy_setParam rfl, ?_⟩, ?_⟩
  · rw [commit_run, postWriteCallback, observe_eq_guarded, guarded_skip honcall]
  · rw [shows_setParam]
    exact Spreads.take (shows w) hbusy
  · rw [shows_setParam, Function.update_self]
    rfl

section

variable [CciBrokerIf B D.BrokerHandle D.CciValue]

/-- A post-write dispatch that comes up in a network where `p` is not busy yet. -/
theorem dispatch_passes (hN : N.Linked bound) {n m : ℕ}
    (hI : Commits N bound (interp (untypedPostWriteCallback bound) n : Interp D B) m)
    {w₁ : World D B} (hw₁ : N.Ready w₁) {p : D.Param} (hp : p ∈ N.group) (hbusy : p ∉ busy w₁)
    (hfree : N.free w₁ ≤ m + 1) (hlen : (N.entries p).length ≤ n + 1) (oldValue v : D.Value p)
    (o : CciOriginator) :
    ∃ t, postWriteCallback (interp (untypedPostWriteCallback bound) (n + 1)) p oldValue v o w₁ =
        (.ok (), t) ∧ N.Ready t ∧ busy t = busy w₁ ∧
      Spreads (N.targets bound) (insert p (busy w₁)) (D.pack p v).2 (shows w₁) (shows t) ∧
      ∀ x ∈ N.targets bound p, shows t x = (D.pack p v).2 := by
  let I : Interp D B := interp (untypedPostWriteCallback bound) (n + 1)
  let act := observerEntry I p .postWrite fun _ entry => .write oldValue v o entry.originator
  let u₀ := enterDispatch p .postWrite w₁
  have hbusy₀ : busy u₀ = insert p (busy w₁) := busy_enterDispatch p w₁
  have hfree₀ : N.free u₀ ≤ m := by
    have hlt := free_lt hp hbusy hbusy₀
    omega
  obtain ⟨t, hrun, hpass, hshow⟩ := entries_pass hN hI hp oldValue v o (N.entries p)
    (fun _ he => he) (hw₁.enterDispatch p) hfree₀
  -- The list stays as it is while the entries run, so the index loop is a run over it.
  have hloop : Eff.forEach (entryAt p .postWrite) act I.fuel 0 () u₀ = (.ok (), t) := by
    have helem : ∀ s : World D B, N.Ready s ∧ N.free s ≤ m → ∀ i,
        entryAt p .postWrite s i = (N.entries p)[i]? := by
      intro s hs i
      rw [entryAt, (hs.1 p hp).vec, if_pos rfl]
    rw [forEach_eq_runEach helem]
    · exact hrun
    · intro e he acc s acc' s' hs hact
      obtain ⟨s'', hrun', hpass', -⟩ := entry_passes hN hI hs.1 hp hs.2 he oldValue v o
      cases hrun'.symm.trans hact
      exact ⟨hpass'.ready, by rw [free_of_busy hpass'.busy]; exact hs.2⟩
    · exact ⟨hw₁.enterDispatch p, hfree₀⟩
    · rw [interp_fuel, Nat.zero_add]
      exact hlen
  refine ⟨leaveDispatch p .postWrite t, ?_, hpass.ready.leaveDispatch p,
    busy_leaveDispatch hbusy (hpass.busy.trans hbusy₀), ?_, ?_⟩
  · rw [postWriteCallback, observe_eq_guarded, guarded_open (by simpa [mem_busy] using hbusy),
      dispatch, scopedTrue, Eff.modify_bind_run, Eff.finalizing, hloop]
  · have hspread := hpass.spreads
    rw [hbusy₀, shows_enterDispatch] at hspread
    rw [shows_leaveDispatch]
    exact hspread
  · rintro x ⟨e, he, hx⟩
    rw [shows_leaveDispatch]
    exact hshow e he x hx

/-- **A write is passed on through the network.**  The induction is on the fuel: each nested dispatch
takes one unit and leaves one list less that is not under dispatch. -/
theorem commit_spreads (hN : N.Linked bound) {L : ℕ} (hL : ∀ p ∈ N.group, (N.entries p).length ≤ L)
    (n : ℕ) : ∀ m, m + L ≤ n →
      Commits N bound (interp (untypedPostWriteCallback bound) n : Interp D B) m := by
  induction n with
  | zero =>
    intro m hm w p v o oldValue hw hp hfree
    have hbusy : p ∈ busy w := by
      by_contra hnot
      have hlt : N.free (enterDispatch p .postWrite w) < N.free w :=
        free_lt hp hnot (busy_enterDispatch p w)
      omega
    exact commit_busy hw hbusy _ v o oldValue
  | succ n ih =>
    intro m hm w p v o oldValue hw hp hfree
    by_cases hbusy : p ∈ busy w
    · exact commit_busy hw hbusy _ v o oldValue
    · have hlt : N.free (enterDispatch p .postWrite w) < N.free w :=
        free_lt hp hbusy (busy_enterDispatch p w)
      let w₁ := w.setParam p (stored v o (w.param p))
      have hbusy₁ : busy w₁ = busy w := busy_setParam rfl
      obtain ⟨t, hrun, hready, hback, hspread, hall⟩ := dispatch_passes hN (ih (m - 1) (by omega))
        (hw.stored p v o) hp (hbusy₁ ▸ hbusy) (by rw [free_of_busy hbusy₁]; omega)
        ((hL p hp).trans (by omega)) oldValue v o
      rw [hbusy₁] at hback hspread
      rw [shows_setParam] at hspread
      obtain ⟨hfrom, hshow⟩ := hspread.visit hall
      refine ⟨t, ?_, ⟨hready, hback, hfrom⟩, hshow⟩
      rw [commit_run]
      exact hrun

end

/-! ### Commands at the top level -/

variable (N bound) in
/-- Between commands: no post-write list is under dispatch, and linked parameters agree. -/
structure InStep (w : World D B) : Prop where
  ready : N.Ready w
  idle : busy w = ∅
  agree : Agree (N.targets bound) (shows w)

variable (N bound) in
/-- The computation comes back and leaves linked parameters in agreement. -/
def Calm {α : Type} (m : CciM D B α) (w : World D B) : Prop :=
  (m w).1.returned = true ∧ N.InStep bound (m w).2

/-- The links go both ways. -/
def BothWays (N : Network D) (bound : CallbackImpl → Option (ParamHandle D)) : Prop :=
  ∀ x, ∀ y ∈ N.targets bound x, x ∈ N.targets bound y

theorem InStep.of_store {w t : World D B} (hw : N.InStep bound w)
    (ht : t.store.params = w.store.params) : N.InStep bound t :=
  ⟨hw.ready.of_store ht, (busy_of_store ht).trans hw.idle, (shows_of_store ht).symm ▸ hw.agree⟩

theorem InStep.passes {w t : World D B} {c : D.CciValue} (hboth : BothWays N bound)
    (hw : N.InStep bound w) (h : N.Passes bound c w t) : N.InStep bound t := by
  have hspread := h.spreads
  rw [hw.idle] at hspread
  exact ⟨h.ready, h.busy.trans hw.idle, hspread.agree hboth hw.agree⟩

/-- An assignment that leaves value, lock and callbacks alone. -/
theorem InStep.setParam {w : World D B} (hw : N.InStep bound w) {p : D.Param}
    {q : CciParam (D.Value p)} (hvalue : q.mValue = (w.param p).mValue)
    (hlock : q.mLockPwd = (w.param p).mLockPwd) (hcallbacks : q.callbacks = (w.param p).callbacks)
    (hfast : p ∈ N.group → q.fastWrite = true → N.entries p = []) :
    N.InStep bound (w.setParam p q) := by
  refine ⟨hw.ready.setParam fun hp => (hw.ready p hp).assign hlock hcallbacks (hfast hp), ?_, ?_⟩
  · rw [busy_setParam (by rw [CciParam.oncall, hcallbacks, CciParam.oncall])]
    exact hw.idle
  · rw [shows_keep hvalue]
    exact hw.agree

/-- A list of one of the other kinds is empty. -/
theorem InStep.observe {w : World D B} (hw : N.InStep bound w) {p : D.Param} (hp : p ∈ N.group)
    (I : Interp D B) {k : CallbackKind} (hk : k ≠ .postWrite)
    (mkEvent : CciParam (D.Value p) → CallbackObj → ParamEvent (D.Value p)) :
    ∃ t, observe I p k mkEvent w = (.ok (), t) ∧ t.store = w.store := by
  rw [observe_eq_guarded]
  cases honcall : (w.param p).oncall k with
  | true => exact ⟨w, guarded_skip honcall, rfl⟩
  | false =>
    have hvec : (w.param p).vec k = [] := ((hw.ready p hp).vec k).trans (if_neg hk)
    exact ⟨_, guarded_empty honcall hvec, rfl⟩

/-- A read returns the value and changes none. -/
theorem InStep.getRawValue {w : World D B} (hw : N.InStep bound w) {p : D.Param}
    (hp : p ∈ N.group) (I : Interp D B) (o : CciOriginator) :
    ∃ t, getRawValue I p o w = (.ok (w.param p).mValue, t) ∧ N.InStep bound t ∧
      shows t = shows w := by
  obtain ⟨u, hu, hstore⟩ := hw.observe hp I (k := .preRead) (by decide) _
  have hu' : N.InStep bound u := hw.of_store (congrArg Store.params hstore)
  obtain ⟨v, hv, hstore'⟩ := hu'.observe hp I (k := .postRead) (by decide) _
  have hv' : N.InStep bound v := hu'.of_store (congrArg Store.params hstore')
  have hparam : v.param p = w.param p :=
    (congrArg (fun s : Store D B => s.params p) hstore').trans
      (congrArg (fun s : Store D B => s.params p) hstore)
  let q : CciParam (D.Value p) := { v.param p with fastRead := fastReadAllowed (v.param p) }
  have hval : (v.param p).mValue = (w.param p).mValue := congrArg CciParam.mValue hparam
  refine ⟨v.setParam p q, ?_, ?_, ?_⟩
  · have hrun : CciParamTyped.getRawValue I p o w =
        (.ok ((v.setParam p q).param p).mValue, v.setParam p q) := by
      rw [CciParamTyped.getRawValue, preReadCallback, postReadCallback, Eff.bind_run_ok hu,
        Eff.bind_run_ok hv]
      rfl
    rw [hrun, World.param_setParam]
    exact congrArg (fun x => (Outcome.ok x, v.setParam p q)) hval
  · exact hv'.setParam rfl rfl rfl fun _ => (hv'.ready p hp).fastWrite
  · rw [shows_keep (q := q) rfl, shows_of_store (congrArg Store.params hstore'),
      shows_of_store (congrArg Store.params hstore)]

theorem free_le (w : World D B) : N.free w ≤ N.group.card := Finset.card_filter_le _ _

namespace Calm

variable {α β : Type} {w : World D B}

theorem of_run {m : CciM D B α} {out : Outcome Report α} {t : World D B} (hrun : m w = (out, t))
    (hout : out.returned = true) (ht : N.InStep bound t) : Calm N bound m w := by
  rw [Calm, hrun]
  exact ⟨hout, ht⟩

theorem bind {m : CciM D B α} {f : α → CciM D B β} (hm : Calm N bound m w)
    (hf : ∀ a t, m w = (.ok a, t) → N.InStep bound t → Calm N bound (f a) t) :
    Calm N bound (m >>= f) w := by
  obtain ⟨hret, ht⟩ := hm
  rcases hr : m w with ⟨a | e | _ | _, t⟩ <;> rw [hr] at hret ht
  · obtain ⟨hret', ht'⟩ := hf a t hr ht
    have hbind : (m >>= f) w = f a t := Eff.bind_run_ok hr f
    rw [Calm, hbind]
    exact ⟨hret', ht'⟩
  · have hbind : (m >>= f) w = (.throw e, t) := Eff.bind_run_throw hr f
    exact of_run hbind rfl ht
  · cases hret
  · cases hret

theorem pure (hw : N.InStep bound w) (a : α) : Calm N bound (pure a) w := of_run rfl rfl hw

/-- Turning the result of a call into an answer. -/
theorem answer {m : CciM D B α} (hm : Calm N bound m w) (f : α → β) :
    Calm N bound (m >>= fun a => Pure.pure (f a)) w :=
  hm.bind fun _ _ _ ht => .pure ht _

theorem refuse (hw : N.InStep bound w) (r : Report) : Calm N bound (refuse r) w := by
  refine of_run (refuse_run r w) ?_ (hw.of_store rfl)
  split <;> rfl

theorem cciValueGet (hw : N.InStep bound w) (p : D.Param) (c : D.CciValue) :
    Calm N bound (cciValueGet p c) w := by
  have hstore := cciValueGet_store p c w
  refine ⟨?_, hw.of_store (congrArg Store.params hstore)⟩
  rw [cciValueGet_run]
  split
  · rfl
  · split <;> rfl

theorem cciValueOf (hw : N.InStep bound w) (p : D.Param) (v : D.Value p) :
    Calm N bound (cciValueOf p v) w := by
  obtain ⟨t, hrun, hstore, -⟩ := cciValueOf_run p v w
  refine of_run hrun ?_ (hw.of_store (congrArg Store.params hstore))
  cases cciOf p v <;> rfl

section

variable {I : Interp D B} {p : D.Param} (hN : N.Linked bound) (hboth : BothWays N bound)
variable (hI : Commits N bound I N.group.card) (hw : N.InStep bound w) (hp : p ∈ N.group)

include hw hp

theorem getRawValue (o : CciOriginator) : Calm N bound (getRawValue I p o) w := by
  obtain ⟨t, hrun, ht, -⟩ := hw.getRawValue hp I o
  exact of_run hrun rfl ht

theorem getValue : Calm N bound (getValue I p) w := by
  have hrun : CciParamTyped.getValue I p w = (if (w.param p).fastRead then
      (Pure.pure (w.param p).mValue : CciM D B (D.Value p))
    else CciParamTyped.getRawValue I p (w.param p).mOriginator) w := rfl
  cases hfast : (w.param p).fastRead with
  | true =>
    rw [hfast] at hrun
    exact of_run hrun rfl hw
  | false =>
    rw [hfast] at hrun
    rw [Calm, hrun]
    exact getRawValue hw hp _

include hboth hI

theorem rawWrite (v : D.Value p) (o : CciOriginator) : Calm N bound (rawWrite I p v o) w := by
  obtain ⟨t, hrun, hpass, -⟩ := hI.rawWrite hw.ready hp (free_le w) v o
  exact of_run hrun rfl (hw.passes hboth hpass)

theorem applyValue (v : D.Value p) (o : CciOriginator)
    (old : CciParam (D.Value p) → D.Value p) : Calm N bound (applyValue I p v o old) w := by
  obtain ⟨t, hrun, hpass⟩ := hI.applyValue hw.ready hp (free_le w) v o old
  exact of_run hrun rfl (hw.passes hboth hpass)

theorem setRawValue (v : D.Value p) (pwd : Option ℕ) (o : CciOriginator) :
    Calm N bound (setRawValue I p v pwd o) w := by
  have hrun := setRawValue_eq I p v pwd o w
  cases hr : writeRefusal p pwd (w.param p) with
  | some r =>
    rw [hr] at hrun
    rw [Calm, hrun]
    exact refuse hw r
  | none =>
    rw [hr] at hrun
    rw [Calm, hrun]
    exact rawWrite hboth hI hw hp v o

theorem setValuePwd (v : D.Value p) (pwd : Option ℕ) :
    Calm N bound (setValuePwd I p v pwd) w := by
  have hrun : CciParamTyped.setValuePwd I p v pwd w =
    CciParamTyped.setRawValue I p v pwd (w.param p).mOriginator w := rfl
  rw [Calm, hrun]
  exact setRawValue hboth hI hw hp v pwd _

/-- An owner's write takes the fast path for a parameter without links only. -/
theorem setValue (v : D.Value p) : Calm N bound (setValue I p v) w := by
  cases hfast : (w.param p).fastWrite with
  | false =>
    rw [Calm, setValue_slow hfast]
    exact setRawValue hboth hI hw hp v none _
  | true =>
    have hentries : N.entries p = [] := (hw.ready p hp).fastWrite hfast
    have htargets : ∀ y, y ∉ N.targets bound p := by
      rintro y ⟨e, he, -⟩
      rw [hentries] at he
      exact List.not_mem_nil he
    refine of_run (setValue_fast hfast I v) rfl (hw.passes (c := (D.pack p v).2) hboth ⟨?_, ?_, ?_⟩)
    · exact hw.ready.setParam fun hp => (hw.ready p hp).assign rfl rfl fun _ => hentries
    · exact busy_setParam rfl
    · rw [shows_setParam]
      exact ((Spreads.refl _ _ _ _).visit fun y hy => absurd hy (htargets y)).1

theorem setCciValue (c : D.CciValue) (pwd : Option ℕ) (o : CciOriginator) :
    Calm N bound (setCciValue I p c pwd o) w :=
  (cciValueGet hw p c).bind fun v _ _ ht => setRawValue hboth hI ht hp v pwd o

theorem presetCciValue (c : D.CciValue) (o : CciOriginator) :
    Calm N bound (presetCciValue I p c o) w := by
  rw [Calm, presetCciValue_eq]
  exact (cciValueGet hw p c).bind fun v _ _ ht => applyValue hboth hI ht hp v o _

theorem reset [CciBrokerIf B D.BrokerHandle D.CciValue] : Calm N bound (reset I p) w := by
  rw [Calm, reset_eq]
  split
  · exact ⟨rfl, hw⟩
  · split
    · exact (presetCciValue hboth hI hw hp _ _).answer _
    · exact applyValue hboth hI hw hp _ _ _

end

end Calm

/-! ### Commands -/

/-- The command reads or writes a parameter of a group, or sets a preset. -/
def Concerns (group : Finset D.Param) : Cmd D → Prop
  | .setValue p _ | .setValuePwd p _ _ | .handleSetValue p _ _ _ | .setCciValue p _ _ _
  | .getValue p | .handleGetValue p _ | .getCciValue p _ | .reset p | .unlock p _
  | .isLocked p => p ∈ group
  | .setPresetCciValue .. => True
  | _ => False

theorem Calm.unlock {w : World D B} (hw : N.InStep bound w) {p : D.Param} (hp : p ∈ N.group)
    (pwd : Option ℕ) : Calm N bound (onParam p (CciParamUntyped.unlock pwd)) w := by
  have hkeep : CciParamUntyped.unlock pwd (w.param p) = (false, w.param p) := by
    rw [CciParamUntyped.unlock, (hw.ready p hp).unlocked]
    exact if_neg (Option.some_ne_none _)
  have hstore : (onParam p (CciParamUntyped.unlock pwd) w).2 = w := by
    show w.setParam p (CciParamUntyped.unlock pwd (w.param p)).2 = w
    rw [hkeep, World.setParam_param]
  exact ⟨rfl, hstore.symm ▸ hw⟩

section

variable [CciBrokerIf B D.BrokerHandle D.CciValue]
variable {I : Interp D B}

theorem Calm.setPreset {w : World D B} (hw : N.InStep bound w) (h : D.BrokerHandle) (n : String)
    (c : D.CciValue) (o : CciOriginator) : Calm N bound (setPreset h n c o) w := by
  cases hset : CciBrokerIf.setPresetCciValue w.store.broker h n c o with
  | error r =>
    have hrun : Cci.setPreset h n c o w = reportError r w := by
      simp only [Cci.setPreset, Eff.get_bind_run, hset]
    rw [Calm, hrun, reportError_run]
    refine ⟨?_, hw.of_store rfl⟩
    split <;> rfl
  | ok b =>
    have hrun : Cci.setPreset h n c o w =
        (.ok (), { w with store := { w.store with broker := b } }) := by
      simp only [Cci.setPreset, Eff.get_bind_run, hset, Eff.modify_run]
    exact .of_run hrun rfl (hw.of_store rfl)

/-- Every command that concerns the network comes back and leaves it in step. -/
theorem Calm.run (hboth : BothWays N bound) (hI : Commits N bound I N.group.card) {w : World D B}
    (hw : N.InStep bound w) (c : Cmd D) (hc : Concerns N.group c) : Calm N bound (c.run I) w := by
  cases c with
  | setValue p v => exact (setValue hboth hI hw hc v).answer _
  | setValuePwd p v pwd => exact (setValuePwd hboth hI hw hc v pwd).answer _
  | handleSetValue p v pwd o => exact (setRawValue hboth hI hw hc v pwd o).answer _
  | setCciValue p c pwd o => exact (setCciValue hboth hI hw hc c pwd o).answer _
  | getValue p => exact (getValue hw hc).answer _
  | handleGetValue p o => exact (getRawValue hw hc o).answer _
  | getCciValue p o =>
    exact ((getRawValue hw hc o).bind fun v t _ ht => cciValueOf ht p v).answer _
  | reset p => exact (reset hboth hI hw hc).answer _
  | unlock p pwd => exact (unlock hw hc pwd).answer _
  | isLocked p => exact ⟨rfl, hw⟩
  | setPresetCciValue h n c o => exact (setPreset hw h n c o).answer _
  | lock p pwd => exact hc.elim
  | registerCallback p k cb => exact hc.elim
  | handleRegisterCallback p k cb o => exact hc.elim
  | unregisterCallback p k cb o => exact hc.elim
  | unregisterAllCallbacks p o => exact hc.elim

theorem Calm.exec (hboth : BothWays N bound) (hI : Commits N bound I N.group.card) {w : World D B}
    (hw : N.InStep bound w) (c : Cmd D) (hc : Concerns N.group c) : Calm N bound (exec I c) w := by
  let w₁ := w.record (.step c w.store)
  obtain ⟨hret, hstep⟩ := Calm.run hboth hI (hw.of_store rfl : N.InStep bound w₁) c hc
  have hexec : Cci.exec I c w =
      ((c.run I w₁).1, (c.run I w₁).2.record (.done c (c.run I w₁).2.store)) := by
    rw [Cci.exec, Eff.modify_bind_run, Eff.finalizing]
    rcases hrun : c.run I w₁ with ⟨a | e | _ | _, t⟩
    · rfl
    · rfl
    · rw [hrun] at hret
      cases hret
    · rw [hrun] at hret
      cases hret
  rw [Calm, hexec]
  exact ⟨hret, hstep.of_store rfl⟩

/-- A run on the network. -/
theorem InStep.calls (hboth : BothWays N bound) (hI : Commits N bound I N.group.card)
    (cs : List (Cmd D)) (hcs : ∀ c ∈ cs, Concerns N.group c) {w : World D B} (hw : N.InStep bound w) :
    ∃ t, Calls I w cs t ∧ N.InStep bound t := by
  induction cs generalizing w with
  | nil => exact ⟨w, .nil w, hw⟩
  | cons c cs ih =>
    obtain ⟨hret, hstep⟩ := Calm.exec hboth hI hw c (hcs c List.mem_cons_self)
    obtain ⟨t, hrun, ht⟩ := ih (fun c' hc' => hcs c' (List.mem_cons_of_mem _ hc')) hstep
    exact ⟨t, .cons hret hrun, ht⟩

/-- **Linked parameters agree.**  In a network of mutable, unlocked parameters whose links go both
ways and whose values every one of them understands, every sequence of reads, writes by value, by
handle or by `cci_value`, with any key, resets, unlocks and presets comes back, and after it all
parameters that are connected by links show the same `cci_value`. -/
theorem linked_params_agree (hN : N.Linked bound) (hboth : BothWays N bound) {L n : ℕ}
    (hL : ∀ p ∈ N.group, (N.entries p).length ≤ L) (hn : N.group.card + L ≤ n) {w : World D B}
    (hw : N.InStep bound w) (cs : List (Cmd D)) (hcs : ∀ c ∈ cs, Concerns N.group c) :
    ∃ t, Calls (interp (untypedPostWriteCallback bound) n) w cs t ∧
      ∀ p x, Relation.ReflTransGen (fun a b => b ∈ N.targets bound a) p x →
        shows t x = shows t p := by
  obtain ⟨t, hrun, ht⟩ := InStep.calls hboth (commit_spreads hN hL n _ hn) cs hcs hw
  exact ⟨t, hrun, fun p x hpx => ht.agree.along hpx⟩

end

/-- Two functors: the one at address 1 is bound to the second parameter, any other to the first. -/
def pairBound (f : CallbackImpl) : Option (ParamHandle (natDesign Bool true)) :=
  some (f.addr == 1, .named "sync")

def pairEntry (p : Bool) : CallbackObj :=
  ⟨some (.impl ⟨if p then 2 else 1, untypedPostWrite⟩), .named "sync"⟩

/-- Two parameters with one entry each, that leads to the other one. -/
def pairNetwork : Network (natDesign Bool true) where
  group := (Finset.univ : Finset Bool)
  entries := fun p : Bool => [pairEntry p]

theorem pairNetwork_targets (p x : Bool) :
    (x : (natDesign Bool true).Param) ∈ pairNetwork.targets pairBound p ↔ x = !p := by
  constructor
  · rintro ⟨e, he, f, o, hcb, hb⟩
    cases List.mem_singleton.1 he
    cases hcb
    cases hb
    cases p <;> rfl
  · rintro rfl
    refine ⟨pairEntry p, List.mem_singleton_self _, _, .named "sync", rfl, ?_⟩
    cases p <;> rfl

theorem pairNetwork_bothWays : BothWays pairNetwork pairBound := by
  intro (x : Bool) (y : Bool) hy
  refine (pairNetwork_targets y x).2 ?_
  rw [(pairNetwork_targets x y).1 hy, Bool.not_not]

theorem pairNetwork_linked : pairNetwork.Linked pairBound where
  outside p hp := absurd (Finset.mem_univ (α := Bool) p) hp
  entry p _ e he := by
    rw [pairNetwork, List.mem_singleton] at he
    subst he
    exact ⟨_, _, _, rfl, rfl, rfl, Finset.mem_univ (α := Bool) _⟩
  mutable _ _ := CciParamMutableType.noConfusion
  packs _ _ _ := rfl
  unpacks _ _ _ _ _ := rfl
  repacks _ _ _ _ _ := rfl

theorem linked_params_agree_pair :
    let w₀ : World (natDesign Bool true) (ConsumingBroker Bool ℕ) :=
      natWorld true (fun p => if p then "top.a" else "top.b") (fun _ => 1) (.named "top") {}
    let w : World (natDesign Bool true) (ConsumingBroker Bool ℕ) := { w₀ with store :=
      { w₀.store with params := fun p => (w₀.param p).setVec .postWrite (pairNetwork.entries p) } }
    ∃ t, Calls (interp (untypedPostWriteCallback pairBound) 3) w
        [.setValue false (7 : ℕ), .reset true, .handleSetValue true (5 : ℕ) (some 3) (.named "x")] t ∧
      ∀ p x, Relation.ReflTransGen (fun a b => b ∈ pairNetwork.targets pairBound a) p x →
        shows t x = shows t p := by
  intro w₀ w
  have hready : pairNetwork.Ready w := fun p _ =>
    ⟨rfl, fun k => by cases k <;> rfl, rfl, fun h => Bool.noConfusion h⟩
  refine linked_params_agree (L := 1) (n := 3) pairNetwork_linked pairNetwork_bothWays (fun _ _ => le_rfl) ?_
    ⟨hready, ?_, fun _ _ _ => rfl⟩ _ fun c hc => ?_
  · show (Finset.univ : Finset Bool).card + 1 ≤ 3
    decide
  · exact Set.eq_empty_iff_forall_notMem.2 fun p hp => Bool.noConfusion hp
  · simp only [List.mem_cons, List.not_mem_nil, or_false] at hc
    rcases hc with rfl | rfl | rfl <;> exact Finset.mem_univ (α := Bool) _

/-! ### Linking -/

/-- A further entry in the post-write list of `p`. -/
def add (N : Network D) (p : D.Param) (e : CallbackObj) : Network D :=
  { N with entries := Function.update N.entries p (N.entries p ++ [e]) }

theorem mem_entries_add {p x : D.Param} {e e' : CallbackObj} :
    e' ∈ (N.add p e).entries x ↔ e' ∈ N.entries x ∨ x = p ∧ e' = e := by
  by_cases hx : x = p
  · subst hx
    simp [add]
  · simp [add, hx]

theorem targets_add {p x y : D.Param} {e : CallbackObj} :
    y ∈ (N.add p e).targets bound x ↔
      y ∈ N.targets bound x ∨ x = p ∧ y ∈ entryTargets bound e := by
  constructor
  · rintro ⟨e', he', hy⟩
    rcases mem_entries_add.1 he' with hold | ⟨hx, rfl⟩
    · exact .inl ⟨e', hold, hy⟩
    · exact .inr ⟨hx, hy⟩
  · rintro (⟨e', he', hy⟩ | ⟨hx, hy⟩)
    · exact ⟨e', mem_entries_add.2 (.inl he'), hy⟩
    · exact ⟨e, mem_entries_add.2 (.inr ⟨hx, rfl⟩), hy⟩

variable (N) in
theorem length_entries_add (p x : D.Param) (e : CallbackObj) :
    ((N.add p e).entries x).length ≤ (N.entries x).length + 1 := by
  by_cases hx : x = p
  · subst hx
    simp [add]
  · simp [add, hx]

/-- An entry that holds a functor bound to the handle `h`. -/
def boundEntry (f : CallbackImpl) (o : CciOriginator) : CallbackObj := ⟨some (.impl f), o⟩

theorem entryTargets_boundEntry {f : CallbackImpl} {o : CciOriginator} {h : ParamHandle D}
    (hf : bound f = some h) : entryTargets bound (boundEntry f o) = {h.1} := by
  ext x
  simp only [entryTargets, boundEntry, Set.mem_singleton_iff]
  constructor
  · rintro ⟨f', o', hcb, hb⟩
    cases hcb
    rw [hf] at hb
    cases hb
    rfl
  · rintro rfl
    exact ⟨f, h.2, rfl, hf⟩

theorem Linked.add (hN : N.Linked bound) {p : D.Param} (hp : p ∈ N.group) {f : CallbackImpl}
    (hsig : f.sig = untypedPostWrite) {h : ParamHandle D} (hf : bound f = some h)
    (hh : h.1 ∈ N.group) (o : CciOriginator) : (N.add p (boundEntry f o)).Linked bound where
  outside x hx := by
    have hne : x ≠ p := fun hxp => hx (hxp ▸ hp)
    show Function.update N.entries p _ x = []
    rw [Function.update_of_ne hne]
    exact hN.outside x hx
  entry x hx e he := by
    rcases mem_entries_add.1 he with hold | ⟨-, rfl⟩
    · exact hN.entry x hx e hold
    · exact ⟨f, h.1, h.2, rfl, hsig, hf, hh⟩
  mutable := hN.mutable
  packs := hN.packs
  unpacks := hN.unpacks
  repacks := hN.repacks

section

variable [CciBrokerIf B D.BrokerHandle D.CciValue]
variable {I : Interp D B} {w : World D B} {p : D.Param}

/-- `register_post_write_callback` on a handle adds an entry to the network. -/
theorem InStep.register (hw : N.InStep bound w) (hp : p ∈ N.group) {f : CallbackImpl}
    {h : ParamHandle D} (hf : bound f = some h) (hshow : shows w h.1 = shows w p)
    (o : CciOriginator) :
    ∃ t, exec I (.handleRegisterCallback p .postWrite (some (.impl f)) o) w = (.ok .unit, t) ∧
      (N.add p (boundEntry f o)).InStep bound t ∧ shows t = shows w := by
  let q := (CciParamUntyped.registerCallback .postWrite (some (.impl f)) o (w.param p)).2
  have hself : (N.add p (boundEntry f o)).entries p = N.entries p ++ [boundEntry f o] := by
    show Function.update N.entries p (N.entries p ++ [boundEntry f o]) p = _
    rw [Function.update_self]
  have hq : (N.add p (boundEntry f o)).Member p q := by
    constructor
    · exact (hw.ready p hp).unlocked
    · intro k
      rw [CciParamUntyped.vec_registerCallback, (hw.ready p hp).vec]
      by_cases hk : k = .postWrite
      · rw [if_pos hk, if_pos hk, if_pos rfl]
        exact hself.symm
      · rw [if_neg hk, if_neg hk, (hw.ready p hp).vec, if_neg hk]
    · exact (oncall_registerCallback _ _ _ _ _).trans (hw.ready p hp).preWrite
    · intro hfast
      cases hfast
  have hready : (N.add p (boundEntry f o)).Ready (w.setParam p q) := by
    intro x hx
    by_cases hxp : x = p
    · subst hxp
      rw [World.param_setParam]
      exact hq
    · have hm := hw.ready x hx
      have hentries : (N.add p (boundEntry f o)).entries x = N.entries x :=
        Function.update_of_ne hxp _ _
      rw [World.param_setParam_of_ne w q hxp]
      exact ⟨hm.unlocked, hentries ▸ hm.vec, hm.preWrite, hentries ▸ hm.fastWrite⟩
  have hshows : shows (w.setParam p q) = shows w := shows_keep rfl
  have hstep : (N.add p (boundEntry f o)).InStep bound (w.setParam p q) := by
    refine ⟨hready, (busy_setParam (oncall_registerCallback _ _ _ _ _)).trans hw.idle, ?_⟩
    intro x y hy
    rw [hshows]
    rcases targets_add.1 hy with hold | ⟨rfl, hnew⟩
    · exact hw.agree x y hold
    · rw [entryTargets_boundEntry hf, Set.mem_singleton_iff] at hnew
      rw [hnew]
      exact hshow
  let c : Cmd D := .handleRegisterCallback p .postWrite (some (.impl f)) o
  let t : World D B :=
    ((w.record (.step c w.store)).setParam p q).record (.done c (w.setParam p q).store)
  exact ⟨t, rfl, hstep.of_store rfl, (shows_of_store rfl).trans hshows⟩

variable (N bound) in
/-- A network whose links go both ways, in step, with lists of at most `L` entries. -/
structure Synced (L : ℕ) (w : World D B) : Prop where
  linked : N.Linked bound
  bothWays : BothWays N bound
  inStep : N.InStep bound w
  length : ∀ p, (N.entries p).length ≤ L

/-- `synchValues` links two parameters of the group. -/
theorem Synced.synchValues {L n : ℕ} {w : World D B} (hw : N.Synced bound L w)
    (hn : N.group.card + L ≤ n) {h₁ h₂ : ParamHandle D} (h₁N : h₁.1 ∈ N.group)
    (h₂N : h₂.1 ∈ N.group) {f₁ f₂ : CallbackImpl} (hf₁ : bound f₁ = some h₂)
    (hf₂ : bound f₂ = some h₁) (hsig₁ : f₁.sig = untypedPostWrite)
    (hsig₂ : f₂.sig = untypedPostWrite) :
    ∃ t, synchValues (interp (untypedPostWriteCallback bound) n) h₁ h₂ f₁ f₂ w = (.ok (), t) ∧
      ((N.add h₁.1 (boundEntry f₁ h₁.2)).add h₂.1 (boundEntry f₂ h₂.2)).Synced bound (L + 2) t := by
  let I : Interp D B := interp (untypedPostWriteCallback bound) n
  have hI : Commits N bound I N.group.card :=
    commit_spreads hw.linked (fun p _ => hw.length p) n _ hn
  obtain ⟨u, hread, hu, hshow⟩ := hw.inStep.getRawValue h₁N I h₁.2
  let c := (D.pack h₁.1 (w.param h₁.1).mValue).2
  have hget : getCciValue I h₁.1 h₁.2 w = (.ok c, u) := by
    rw [getCciValue, Eff.bind_run_ok hread, cciValueOf, if_pos (hw.linked.packs _ h₁N _)]
    rfl
  obtain ⟨v, hset, hpass, hshow₂⟩ := hI.deliver hw.linked hu.ready h₁N h₂N (free_le u)
    (w.param h₁.1).mValue h₂.2
  have hshow₁ : shows v h₁.1 = c := hpass.spreads.holds (congrFun hshow h₁.1)
  have hv : N.InStep bound v := hu.passes hw.bothWays hpass
  obtain ⟨x, hreg₁, hx, hshowx⟩ := hv.register (I := I) h₁N hf₁ (hshow₂.trans hshow₁.symm) h₁.2
  have hagree : shows x h₁.1 = shows x h₂.1 := by
    rw [hshowx]
    exact hshow₁.trans hshow₂.symm
  obtain ⟨t, hreg₂, ht, -⟩ := hx.register (I := I) (p := h₂.1) h₂N hf₂ hagree h₂.2
  refine ⟨t, ?_, ⟨?_, ?_, ht, fun p => ?_⟩⟩
  · rw [ValueSync.synchValues, Eff.bind_run_ok hget, Eff.bind_run_ok hset, Eff.bind_run_ok hreg₁,
      Eff.bind_run_ok hreg₂]
    rfl
  · exact (hw.linked.add h₁N hsig₁ hf₁ h₂N h₁.2).add h₂N hsig₂ hf₂ h₁N h₂.2
  · intro y z hz
    rw [targets_add, targets_add, entryTargets_boundEntry hf₁, entryTargets_boundEntry hf₂,
      Set.mem_singleton_iff, Set.mem_singleton_iff] at hz ⊢
    rcases hz with (hold | ⟨rfl, rfl⟩) | ⟨rfl, rfl⟩
    · exact .inl (.inl (hw.bothWays y z hold))
    · exact .inr ⟨rfl, rfl⟩
    · exact .inl (.inr ⟨rfl, rfl⟩)
  · have hlen := hw.length p
    have hlen₁ := N.length_entries_add h₁.1 p (boundEntry f₁ h₁.2)
    have hlen₂ := (N.add h₁.1 (boundEntry f₁ h₁.2)).length_entries_add h₂.1 p (boundEntry f₂ h₂.2)
    omega

/-- The constructor links the first parameter with each of the others. -/
theorem Synced.paramValueSync {h₀ : ParamHandle D}
    (hs : List (ParamHandle D × CallbackImpl × CallbackImpl))
    (hbound : ∀ x ∈ hs, bound x.2.1 = some x.1 ∧ bound x.2.2 = some h₀ ∧
      x.2.1.sig = untypedPostWrite ∧ x.2.2.sig = untypedPostWrite)
    {N : Network D} (h₀N : h₀.1 ∈ N.group) (hsN : ∀ x ∈ hs, x.1.1 ∈ N.group) {L n : ℕ}
    {w : World D B} (hw : N.Synced bound L w) (hn : N.group.card + L + 2 * hs.length ≤ n) :
    ∃ (N' : Network D) (t : World D B),
      paramValueSync (interp (untypedPostWriteCallback bound) n) h₀ hs w = (.ok (), t) ∧
      N'.group = N.group ∧ N'.Synced bound (L + 2 * hs.length) t ∧
      (∀ p, N.targets bound p ⊆ N'.targets bound p) ∧
      ∀ x ∈ hs, x.1.1 ∈ N'.targets bound h₀.1 := by
  induction hs generalizing N L w with
  | nil => exact ⟨N, w, rfl, rfl, hw, fun _ => Set.Subset.rfl, fun x hx => absurd hx List.not_mem_nil⟩
  | cons x hs ih =>
    obtain ⟨h, f, f'⟩ := x
    obtain ⟨hf, hf', hsig, hsig'⟩ := hbound _ List.mem_cons_self
    rw [List.length_cons] at hn
    have hfuel : N.group.card + L ≤ n := by omega
    obtain ⟨u, hlink, hu⟩ :=
      hw.synchValues hfuel h₀N (hsN _ List.mem_cons_self) hf hf' hsig hsig'
    let N₁ := (N.add h₀.1 (boundEntry f h₀.2)).add h.1 (boundEntry f' h.2)
    have hfuel₁ : N₁.group.card + (L + 2) + 2 * hs.length ≤ n := by
      show N.group.card + (L + 2) + 2 * hs.length ≤ n
      omega
    obtain ⟨N', t, hrun, hgroup, ht, hmono, hall⟩ := ih
      (fun y hy => hbound y (List.mem_cons_of_mem _ hy)) (N := N₁) h₀N
      (fun y hy => hsN y (List.mem_cons_of_mem _ hy)) hu hfuel₁
    refine ⟨N', t, (Eff.bind_run_ok hlink _).trans hrun, hgroup, ?_, fun p y hy => ?_, fun y hy => ?_⟩
    · have hlen : L + 2 + 2 * hs.length = L + 2 * (hs.length + 1) := by omega
      rw [List.length_cons, ← hlen]
      exact ht
    · exact hmono p (targets_add.2 (.inl (targets_add.2 (.inl hy))))
    · rcases List.mem_cons.1 hy with heq | htail
      · subst heq
        refine hmono h₀.1 (targets_add.2 (.inl (targets_add.2 (.inr ⟨rfl, ?_⟩))))
        rw [entryTargets_boundEntry hf]
        exact Set.mem_singleton _
      · exact hall y htail

/-- **The constructor of `ex11_param_value_sync` puts its parameters in step for good.**  It is run
on mutable, unlocked parameters without callbacks whose values all of them understand; then after
every sequence of reads, writes, resets, unlocks and presets on them, each shows the `cci_value` of
the first. -/
theorem param_value_sync_agrees (h₀ : ParamHandle D)
    (hs : List (ParamHandle D × CallbackImpl × CallbackImpl))
    (hbound : ∀ x ∈ hs, bound x.2.1 = some x.1 ∧ bound x.2.2 = some h₀ ∧
      x.2.1.sig = untypedPostWrite ∧ x.2.2.sig = untypedPostWrite)
    (hN : N.Linked bound) (hbare : ∀ p, N.entries p = []) (h₀N : h₀.1 ∈ N.group)
    (hsN : ∀ x ∈ hs, x.1.1 ∈ N.group) {n : ℕ} (hn : N.group.card + 2 * hs.length ≤ n)
    {w : World D B} (hw : N.Ready w) (hidle : busy w = ∅) :
    ∃ t, paramValueSync (interp (untypedPostWriteCallback bound) n) h₀ hs w = (.ok (), t) ∧
      ∀ cs : List (Cmd D), (∀ c ∈ cs, Concerns N.group c) →
        ∃ u, Calls (interp (untypedPostWriteCallback bound) n) t cs u ∧
          ∀ x ∈ hs, shows u x.1.1 = shows u h₀.1 := by
  have hnone : ∀ x y, y ∉ N.targets bound x := by
    rintro x y ⟨e, he, -⟩
    rw [hbare] at he
    exact List.not_mem_nil he
  have hstart : N.Synced bound 0 w :=
    ⟨hN, fun x y hy => absurd hy (hnone x y), ⟨hw, hidle, fun x y hy => absurd hy (hnone x y)⟩,
      fun p => by rw [hbare]; exact le_rfl⟩
  obtain ⟨N', t, hrun, hgroup, ht, -, hall⟩ := hstart.paramValueSync hs hbound h₀N hsN (by omega)
  refine ⟨t, hrun, fun cs hcs => ?_⟩
  obtain ⟨u, hcalls, hu⟩ := InStep.calls ht.bothWays
    (commit_spreads ht.linked (fun p _ => ht.length p) n _ (by rw [hgroup]; omega)) cs
    (hgroup ▸ hcs) ht.inStep
  exact ⟨u, hcalls, fun x hx => hu.agree _ _ (hall x hx)⟩

end

theorem param_value_sync_agrees_pair :
    let w : World (natDesign Bool true) (ConsumingBroker Bool ℕ) :=
      natWorld true (fun p => if p then "top.a" else "top.b") (fun _ => 1) (.named "top") {}
    let I : Interp (natDesign Bool true) (ConsumingBroker Bool ℕ) :=
      interp (untypedPostWriteCallback pairBound) 4
    ∃ t, paramValueSync I (false, .named "sync")
        [((true, .named "sync"), ⟨1, untypedPostWrite⟩, ⟨2, untypedPostWrite⟩)] w = (.ok (), t) ∧
      ∀ cs, (∀ c ∈ cs, Concerns (D := natDesign Bool true) (Finset.univ : Finset Bool) c) →
        ∃ u, Calls I t cs u ∧ shows u true = shows u false := by
  intro w I
  let N : Network (natDesign Bool true) := ⟨(Finset.univ : Finset Bool), fun _ => []⟩
  have hN : N.Linked pairBound :=
    ⟨fun _ _ => rfl, fun _ _ _ he => absurd he List.not_mem_nil,
      fun _ _ => CciParamMutableType.noConfusion, fun _ _ _ => rfl, fun _ _ _ _ _ => rfl,
      fun _ _ _ _ _ => rfl⟩
  have hready : N.Ready w := fun p _ =>
    ⟨rfl, fun k => by cases k <;> rfl, rfl, fun h => Bool.noConfusion h⟩
  have hidle : busy w = ∅ := Set.eq_empty_iff_forall_notMem.2 fun p hp => Bool.noConfusion hp
  have huniv : ∀ p : Bool, p ∈ N.group := fun p => Finset.mem_univ p
  obtain ⟨t, hrun, hall⟩ := param_value_sync_agrees (n := 4) (N := N) (false, .named "sync")
    [((true, .named "sync"), ⟨1, untypedPostWrite⟩, ⟨2, untypedPostWrite⟩)]
    (fun x hx => by rw [List.mem_singleton] at hx; subst hx; exact ⟨rfl, rfl, rfl, rfl⟩) hN
    (fun _ => rfl) (huniv false) (fun x _ => huniv x.1.1)
    (by show (Finset.univ : Finset Bool).card + 2 * 1 ≤ 4; decide) hready hidle
  refine ⟨t, hrun, fun cs hcs => ?_⟩
  obtain ⟨u, hcalls, hshow⟩ := hall cs hcs
  exact ⟨u, hcalls, hshow _ (List.mem_singleton_self _)⟩

end Network

end ValueSync

end Cci
