import Cci.Cfg.WriteOutcome
import Cci.Cfg.Dispatch
import Cci.Utils.BrokerCallbacks

/-!
# Unregistering during a dispatch

The dispatch loops of a parameter and of a broker index a vector that the invoked callbacks may
shrink.  An entry removed at or before the running index moves all later ones down by one, and the
next of them is stepped over.  An invocation that does not come back ends the dispatch.

* `Unregisters` — what an invocation of a callback removes from its own list;
* `DispatchCall.turns_exact`, `BrokerEnv.turns_exact` — the turns of a dispatch, and when none is
  skipped;
* `removal_during_dispatch_exact` — the two together.
-/

namespace Cci

open Effect CciParamTyped VectorLoop

variable {D : Design} {B : Type}

/-- The test of `unregister_<kind>_callback(cb, orig)`. -/
def unregisterHits (c : CallbackHandle × CciOriginator) : CallbackObj → Bool :=
  CciParamUntyped.matchesEntry c.1 c.2

/-- An invocation of a callback of the list `k` of `p`, however it ends, has unregistered from that
list what `calls` says, and nothing else has changed there. -/
def Unregisters (I : Interp D B) (p : D.Param) (k : CallbackKind)
    (calls : CallbackObj → ParamEvent (D.Value p) → World D B →
      List (CallbackHandle × CciOriginator)) : Prop :=
  ∀ entry ev held w, typedHandle p k entry = some held →
    ((invokeHeld I p k entry ev held w).2.param p).vec k =
      removeEach unregisterHits (calls entry ev w) ((w.param p).vec k)

namespace DispatchCall

variable {p : D.Param} {I : Interp D B}
variable {calls : CallbackObj → ParamEvent (D.Value p) → World D B →
  List (CallbackHandle × CciOriginator)}

/-- The removals in the turn of an entry; one without a callback of this list has none. -/
def turnCalls (c : DispatchCall D p)
    (calls : CallbackObj → ParamEvent (D.Value p) → World D B →
      List (CallbackHandle × CciOriginator))
    (entry : CallbackObj) (_ : c.Result) (w : World D B) : List (CallbackHandle × CciOriginator) :=
  if (typedHandle p c.kind entry).isSome then calls entry (c.event (w.param p) entry) w else []

/-- What the turn of an observer does to its list. -/
theorem observerEntry_removes {k : CallbackKind} (hcalls : Unregisters I p k calls)
    (mkEvent : CciParam (D.Value p) → CallbackObj → ParamEvent (D.Value p)) (entry : CallbackObj)
    (u : Unit) (w : World D B) :
    ((observerEntry I p k mkEvent entry u w).2.param p).vec k = removeEach unregisterHits
      (if (typedHandle p k entry).isSome then calls entry (mkEvent (w.param p) entry) w else [])
      ((w.param p).vec k) := by
  unfold observerEntry
  cases hh : typedHandle p k entry with
  | none => rfl
  | some held =>
    have hremoved := hcalls entry (mkEvent (w.param p) entry) held w hh
    simp only [Option.isSome_some, if_true, getParam, Eff.gets_bind_run]
    rw [← hremoved, Eff.bind_run]
    show ((_ : Outcome Report Unit × World D B).2.param p).vec k = _
    simp only [invokeTyped]
    rcases invokeHeld I p k entry (mkEvent (w.param p) entry) held w with ⟨b | e | _ | _, t⟩ <;> rfl

theorem preWriteEntry_removes (hcalls : Unregisters I p .preWrite calls) (v : D.Value p)
    (o : CciOriginator) (entry : CallbackObj) (r : Bool) (w : World D B) :
    ((preWriteEntry I p v o entry r w).2.param p).vec .preWrite = removeEach unregisterHits
      (if (typedHandle p .preWrite entry).isSome then
        calls entry (.write (w.param p).mValue v o entry.originator) w else [])
      ((w.param p).vec .preWrite) := by
  simp only [preWriteEntry, getParam, Eff.gets_bind_run]
  cases hh : typedHandle p .preWrite entry with
  | none => rfl
  | some held =>
    have hremoved := hcalls entry (.write (w.param p).mValue v o entry.originator) held w hh
    simp only [Option.isSome_some, if_true, invokeTyped]
    rw [← hremoved, Eff.bind_run]
    rcases invokeHeld I p .preWrite entry (.write (w.param p).mValue v o entry.originator) held w
      with ⟨b | e | _ | _, t⟩
    · cases b with
      | true => rfl
      | false =>
        -- The report of a rejection changes no list.
        simp only [Bool.false_eq_true, if_false]
        rw [Eff.bind_run, reportError_run]
        cases D.throws <;> rfl
    · rfl
    · rfl
    · rfl

theorem act_removes (c : DispatchCall D p) (hcalls : Unregisters I p c.kind calls) :
    RemovesOnly unregisterHits (c.act I) (c.turnCalls calls)
      fun w : World D B => (w.param p).vec c.kind := by
  intro entry acc w
  cases c with
  | preWrite v o => exact preWriteEntry_removes hcalls v o entry acc w
  | postWrite old new o => exact observerEntry_removes hcalls _ entry acc w
  | preRead o => exact observerEntry_removes hcalls _ entry acc w
  | postRead o => exact observerEntry_removes hcalls _ entry acc w

/-- The turns of a dispatch that starts in `w`. -/
def turns (I : Interp D B) (c : DispatchCall D p)
    (calls : CallbackObj → ParamEvent (D.Value p) → World D B →
      List (CallbackHandle × CciOriginator)) (w : World D B) : List (Turn CallbackObj) :=
  VectorLoop.turns unregisterHits (c.act I) (c.turnCalls calls) I.fuel 0
    ((w.param p).vec c.kind).zipIdx c.init (enterDispatch p c.kind w)

/-- A dispatch invokes the entries of its turns under the guard, comes back when each of them does, and
leaves none out exactly when every turn is harmless. -/
theorem turns_exact (c : DispatchCall D p) (hcalls : Unregisters I p c.kind calls)
    {w : World D B} (hg : (w.param p).oncall c.kind = false)
    (hfuel : ((w.param p).vec c.kind).length ≤ I.fuel) :
    c.run I w = scopedTrue p c.kind
        (runEach (c.act I) ((c.turns I calls w).map fun x => x.entry.1) c.init) w ∧
      ((∃ r t, c.run I w = (.ok r, t)) ↔ ∀ x ∈ c.turns I calls w, x.cameBack = true) ∧
      (NoneSkipped ((w.param p).vec c.kind).zipIdx (c.turns I calls w) ↔
        ∀ x ∈ c.turns I calls w, x.Harmless) := by
  have hvec : ((enterDispatch p c.kind w).param p).vec c.kind = (w.param p).vec c.kind := by
    show ((w.setParam p ((w.param p).setOncall c.kind true)).param p).vec c.kind = _
    rw [World.param_setParam, CciParam.vec_setOncall]
  have helem : ∀ (s : World D B) i, entryAt p c.kind s i = ((s.param p).vec c.kind)[i]? :=
    fun _ _ => rfl
  have hfuel' : (((enterDispatch p c.kind w).param p).vec c.kind).length ≤ I.fuel := by
    rw [hvec]
    exact hfuel
  obtain ⟨hrun, hback, hiff⟩ := noneSkipped_iff (c.act_removes hcalls) helem c.init hfuel'
  simp only [hvec] at hrun hback hiff
  have hdispatch : c.run I w = scopedTrue p c.kind
      (runEach (c.act I) ((c.turns I calls w).map fun x => x.entry.1) c.init) w := by
    rw [c.run_open I hg]
    show Eff.finalizing _ _ (enterDispatch p c.kind w) = Eff.finalizing _ _ (enterDispatch p c.kind w)
    unfold Eff.finalizing
    rw [hrun]
    rfl
  refine ⟨hdispatch, ?_, hiff⟩
  refine Iff.trans ?_ hback
  rw [c.run_open I hg]
  show (∃ r t, Eff.finalizing (leaveDispatch p c.kind)
    (Eff.forEach (entryAt p c.kind) (c.act I) I.fuel 0 c.init : CciM D B _)
    (enterDispatch p c.kind w) = (.ok r, t)) ↔ _
  exact Eff.finalizing_ok_iff

end DispatchCall

/-! ### The dispatches of a broker -/

namespace BrokerEnv

variable {σ P C : Type}

/-- The test of `unregister_<kind>_callback(cb, orig)` of a broker. -/
def unregisterHits (c : CallbackHandle × CciOriginator) : BrokerCallbackObj → Bool :=
  ConsumingBroker.matchesEntry c.1 c.2

theorem callbackVec_unregisterCallback (k : BrokerCallbackKind) (cb : CallbackHandle)
    (o : CciOriginator) (b : ConsumingBroker P C) :
    (b.unregisterCallback k cb o).2.callbackVec k =
      (b.callbackVec k).eraseP (unregisterHits (cb, o)) := by
  unfold ConsumingBroker.unregisterCallback
  split
  · rw [ConsumingBroker.callbackVec_setCallbackVec, if_pos rfl]
    rfl
  · rename_i hno
    refine (List.eraseP_of_forall_not fun e he hhit => hno ?_).symm
    exact List.any_eq_true.2 ⟨e, he, hhit⟩

/-- The list `k` of the broker. -/
def vec (env : BrokerEnv σ P C) (k : BrokerCallbackKind) (s : σ) : List BrokerCallbackObj :=
  (env.broker.get s).callbackVec k

/-- An invocation of a create or destroy callback, however it ends, has unregistered from its list
what `calls` says, and nothing else has changed there. -/
def Unregisters (env : BrokerEnv σ P C) (k : BrokerCallbackKind) (par : P)
    (calls : BrokerCallbackObj → σ → List (CallbackHandle × CciOriginator)) : Prop :=
  ∀ entry s, env.vec k (env.invoke par entry () s).2 =
    removeEach unregisterHits (calls entry s) (env.vec k s)

/-- The state in which `add_param` or `remove_param` starts its dispatch. -/
def entered (env : BrokerEnv σ P C) (k : BrokerCallbackKind) (par : P) (s : σ) : σ :=
  match k with
  | .create =>
      let s₁ := env.broker.set ((env.broker.get s).register (env.name par) par) s
      env.broker.set ((env.broker.get s₁).consume (env.name par)) s₁
  | .destroy => env.broker.set ((env.broker.get s).deregister (env.name par)) s

/-- What `add_param` or `remove_param` does after its dispatch. -/
def left (env : BrokerEnv σ P C) (k : BrokerCallbackKind) (par : P) : Eff Report σ Unit :=
  match k with
  | .create => pure ()
  | .destroy => env.broker.modify (ConsumingBroker.release (env.name par))

/-- `add_param` or `remove_param`. -/
def announce (env : BrokerEnv σ P C) (k : BrokerCallbackKind) (par : P) : Eff Report σ Unit :=
  match k with
  | .create => env.addParam par
  | .destroy => env.removeParam par

/-- The dispatch in between. -/
def dispatch (env : BrokerEnv σ P C) (k : BrokerCallbackKind) (par : P) : Eff Report σ Unit :=
  Eff.forEach (fun s i => (env.vec k s)[i]?) (env.invoke par) env.fuel 0 ()

variable {env : BrokerEnv σ P C} {k : BrokerCallbackKind} {par : P}

/-- Once `add_param` has accepted the name, it is its dispatch. -/
theorem announce_run {s : σ}
    (hnew : k = .create → env.name par ∉ (env.broker.get s).mParamRegistry) :
    env.announce k par s = (env.dispatch k par >>= fun _ => env.left k par) (env.entered k par s) := by
  cases k with
  | create =>
    simp only [announce, addParam, Eff.get_bind_run]
    rw [if_neg (hnew rfl)]
    show env.dispatch .create par (env.entered .create par s) =
      (env.dispatch .create par >>= fun _ => pure ()) (env.entered .create par s)
    rw [Eff.bind_run]
    rcases env.dispatch .create par (env.entered .create par s) with ⟨⟨⟩ | e | _ | _, u⟩ <;> rfl
  | destroy => rfl

/-- What comes after the dispatch comes back. -/
theorem left_ok (env : BrokerEnv σ P C) (k : BrokerCallbackKind) (par : P) (s : σ) :
    ∃ t, env.left k par s = (.ok (), t) := by
  cases k with
  | create => exact ⟨s, rfl⟩
  | destroy => exact ⟨_, rfl⟩

/-- The turns of the dispatch of an `add_param` or `remove_param` that starts in `s`. -/
def turns (env : BrokerEnv σ P C) (k : BrokerCallbackKind) (par : P)
    (calls : BrokerCallbackObj → σ → List (CallbackHandle × CciOriginator)) (s : σ) :
    List (Turn BrokerCallbackObj) :=
  VectorLoop.turns unregisterHits (env.invoke par) (fun entry _ => calls entry) env.fuel 0
    (env.vec k (env.entered k par s)).zipIdx () (env.entered k par s)

theorem turns_exact {calls : BrokerCallbackObj → σ → List (CallbackHandle × CciOriginator)}
    (hcalls : env.Unregisters k par calls) {s : σ}
    (hnew : k = .create → env.name par ∉ (env.broker.get s).mParamRegistry)
    (hfuel : (env.vec k (env.entered k par s)).length ≤ env.fuel) :
    env.announce k par s =
        (runEach (env.invoke par) ((env.turns k par calls s).map fun x => x.entry.1) () >>=
          fun _ => env.left k par) (env.entered k par s) ∧
      ((∃ t, env.announce k par s = (.ok (), t)) ↔
        ∀ x ∈ env.turns k par calls s, x.cameBack = true) ∧
      (NoneSkipped (env.vec k (env.entered k par s)).zipIdx (env.turns k par calls s) ↔
        ∀ x ∈ env.turns k par calls s, x.Harmless) := by
  have hremoves : RemovesOnly unregisterHits (env.invoke par) (fun entry _ => calls entry)
      (env.vec k) := fun entry _ s => hcalls entry s
  obtain ⟨hloop, hback, hiff⟩ := noneSkipped_iff hremoves (fun _ _ => rfl) () hfuel
  have hdispatch : env.dispatch k par (env.entered k par s) =
      runEach (env.invoke par) ((env.turns k par calls s).map fun x => x.entry.1) ()
        (env.entered k par s) := hloop
  refine ⟨?_, Iff.trans ?_ hback, hiff⟩
  · rw [announce_run hnew, Eff.bind_run, Eff.bind_run, hdispatch]
  · rw [announce_run hnew]
    constructor
    · rintro ⟨t, ht⟩
      obtain ⟨⟨⟩, u, hu, -⟩ := Eff.bind_run_eq_ok ht
      exact ⟨(), u, hu⟩
    · rintro ⟨⟨⟩, u, hu⟩
      obtain ⟨t, ht⟩ := env.left_ok k par u
      have hdispatched : env.dispatch k par (env.entered k par s) = (.ok (), u) := hu
      exact ⟨t, (Eff.bind_run_ok hdispatched _).trans ht⟩

end BrokerEnv

/-! ### Client programs that unregister -/

section

variable [CciBrokerIf B D.BrokerHandle D.CciValue] {p : D.Param} {k : CallbackKind}

/-- The program that unregisters callbacks of one list. -/
def unregisterProg (p : D.Param) (k : CallbackKind) :
    List (CallbackHandle × CciOriginator) → Prog D
  | [] => .ret true
  | c :: cs => .cmd (.unregisterCallback p k c.1 c.2) fun _ => unregisterProg p k cs

theorem unregisterProg_run (I : Interp D B) (calls : List (CallbackHandle × CciOriginator))
    (w : World D B) : ∃ t, runProg I (unregisterProg p k calls) w = (.ok true, t) ∧
      (t.param p).vec k = removeEach unregisterHits calls ((w.param p).vec k) := by
  induction calls generalizing w with
  | nil => exact ⟨w, rfl, rfl⟩
  | cons c calls ih =>
    -- The command comes back with its answer, and has erased the first match.
    obtain ⟨a, u, hu, hvec⟩ : ∃ a u, exec I (.unregisterCallback p k c.1 c.2) w = (.ok a, u) ∧
        (u.param p).vec k = ((w.param p).vec k).eraseP (unregisterHits c) := by
      refine ⟨_, _, rfl, ?_⟩
      simp only [World.param_record, World.param_setParam]
      exact (CciParamUntyped.vec_unregisterCallback k k c.1 c.2 _).trans (if_pos rfl)
    obtain ⟨t, ht, hfinal⟩ := ih u
    refine ⟨t, ?_, ?_⟩
    · show (Eff.attempt (exec I (.unregisterCallback p k c.1 c.2)) >>= fun _ =>
        runProg I (unregisterProg p k calls)) w = _
      have hattempt : Eff.attempt (exec I (.unregisterCallback p k c.1 c.2)) w =
          (.ok (.ok a), u) := by
        rw [Eff.attempt, hu]
      rw [Eff.bind_run_ok hattempt, ht]
    · rw [hfinal, hvec]
      rfl

/-- What an entry of the list `k` unregisters when callbacks unregister what `plan` says: an untyped
callback does so once the event is converted for it. -/
def plannedCalls (p : D.Param) (k : CallbackKind)
    (plan : CallbackImpl → List (CallbackHandle × CciOriginator)) (entry : CallbackObj)
    (ev : ParamEvent (D.Value p)) (_ : World D B) : List (CallbackHandle × CciOriginator) :=
  match typedHandle p k entry with
  | some (.impl f) => plan f
  | some (.adapt f _) => if (untypedEvent p ev).isOk then plan f else []
  | none => []

/-- Callbacks that unregister what `plan` says. -/
theorem interp_unregisters (plan : CallbackImpl → List (CallbackHandle × CciOriginator)) (n : ℕ) :
    Unregisters (interp (fun f _ => unregisterProg p k (plan f)) (n + 1) : Interp D B) p k
      (plannedCalls p k plan) := by
  have hcall : ∀ (f : CallbackImpl) ev (w : World D B),
      (((interp (fun f _ => unregisterProg p k (plan f)) (n + 1) : Interp D B).call f ev w).2.param
        p).vec k = removeEach unregisterHits (plan f) ((w.param p).vec k) := by
    intro f ev w
    obtain ⟨t, ht, hvec⟩ := unregisterProg_run (p := p) (k := k)
      (interp (fun f _ => unregisterProg p k (plan f)) n : Interp D B) (plan f) w
    show ((runProg (interp (fun f _ => unregisterProg p k (plan f)) n : Interp D B)
      (unregisterProg p k (plan f)) w).2.param p).vec k = _
    rw [ht]
    exact hvec
  intro entry ev held w hh
  unfold plannedCalls
  rw [hh]
  cases held with
  | impl f => exact hcall f (.typed p ev) (w.record (.invoked p k entry ev))
  | adapt f s =>
    obtain ⟨t, ht, hstore, -⟩ := genericWrap_run p ev w
    have hvec : (t.param p).vec k = (w.param p).vec k := by
      show (t.store.params p).vec k = (w.store.params p).vec k
      rw [hstore]
    simp only [invokeHeld]
    rw [Eff.bind_run, ht]
    cases hev : untypedEvent p ev with
    | error r => exact hvec
    | ok cev =>
      rw [← hvec]
      exact hcall f (.untyped p cev) (t.record (.invoked p k entry ev))

end

/-! ### When no callback is skipped -/

/-- **Unregistering during a dispatch.**  A dispatch of a parameter's callbacks, or of a broker's in
`add_param` or `remove_param`, invokes the entries of its turns, one after the other, and comes back if
each of them does.  Every entry that is still registered when its turn comes has exactly one, in
registration order, if and only if every turn behind which an entry stays comes back and removes
neither its own entry nor an earlier one. -/
theorem removal_during_dispatch_exact {D : Design} {B : Type} (I : Interp D B) (p : D.Param)
    (c : DispatchCall D p)
    (calls : CallbackObj → ParamEvent (D.Value p) → World D B → List (CallbackHandle × CciOriginator))
    {σ P C : Type} (env : BrokerEnv σ P C) (k : BrokerCallbackKind) (par : P)
    (brokerCalls : BrokerCallbackObj → σ → List (CallbackHandle × CciOriginator)) :
    (Unregisters I p c.kind calls → ∀ w : World D B, (w.param p).oncall c.kind = false →
      ((w.param p).vec c.kind).length ≤ I.fuel →
        c.run I w = scopedTrue p c.kind
          (runEach (c.act I) ((c.turns I calls w).map fun x => x.entry.1) c.init) w ∧
        ((∃ r t, c.run I w = (.ok r, t)) ↔ ∀ x ∈ c.turns I calls w, x.cameBack = true) ∧
        (NoneSkipped ((w.param p).vec c.kind).zipIdx (c.turns I calls w) ↔
          ∀ x ∈ c.turns I calls w, x.Harmless)) ∧
    (env.Unregisters k par brokerCalls → ∀ s : σ,
      (k = .create → env.name par ∉ (env.broker.get s).mParamRegistry) →
      (env.vec k (env.entered k par s)).length ≤ env.fuel →
        env.announce k par s =
          (runEach (env.invoke par) ((env.turns k par brokerCalls s).map fun x => x.entry.1) () >>=
            fun _ => env.left k par) (env.entered k par s) ∧
        ((∃ t, env.announce k par s = (.ok (), t)) ↔
          ∀ x ∈ env.turns k par brokerCalls s, x.cameBack = true) ∧
        (NoneSkipped (env.vec k (env.entered k par s)).zipIdx (env.turns k par brokerCalls s) ↔
          ∀ x ∈ env.turns k par brokerCalls s, x.Harmless)) :=
  ⟨fun hcalls _ hg hfuel => c.turns_exact hcalls hg hfuel,
    fun hcalls _ hnew hfuel => BrokerEnv.turns_exact hcalls hnew hfuel⟩

/-- The callback object of a number, for a list of a parameter. -/
def numberedCallback (k : CallbackKind) (n : ℕ) : CallbackHandle :=
  some (.impl ⟨n, k.signature 0⟩)

/-- A parameter with two pre-read callbacks, and nothing else in the design. -/
def twoReaders : World (natDesign Unit true) (ConsumingBroker Unit ℕ) :=
  let w := natWorld true (fun _ => "top.p") (fun _ => 0) .unknown {}
  w.setParam () ((w.param ()).setVec .preRead
    [⟨numberedCallback .preRead 1, .unknown⟩, ⟨numberedCallback .preRead 2, .unknown⟩])

/-- The first callback unregisters the one numbered `n`. -/
def firstRemoves (n : ℕ) (f : CallbackImpl) : List (CallbackHandle × CciOriginator) :=
  if f.addr = 1 then [(numberedCallback .preRead n, .unknown)] else []

def readersInterp (n : ℕ) : Interp (natDesign Unit true) (ConsumingBroker Unit ℕ) :=
  interp (fun f _ => unregisterProg () .preRead (firstRemoves n f)) 3

/-- What an entry of `twoReaders` unregisters. -/
def readersCalls (n : ℕ) : CallbackObj → ParamEvent ℕ →
    World (natDesign Unit true) (ConsumingBroker Unit ℕ) → List (CallbackHandle × CciOriginator) :=
  plannedCalls (D := natDesign Unit true) () .preRead (firstRemoves n)

theorem readers_unregister (n : ℕ) :
    Unregisters (readersInterp n) () .preRead (readersCalls n) :=
  interp_unregisters (firstRemoves n) 2

/-- A callback that unregisters itself makes the dispatch step over the next one. -/
theorem one_shot_skips_next :
    ¬∀ (I : Interp (natDesign Unit true) (ConsumingBroker Unit ℕ))
      (c : DispatchCall (natDesign Unit true) ()) calls, Unregisters I () c.kind calls →
      ∀ w : World (natDesign Unit true) (ConsumingBroker Unit ℕ),
        (w.param ()).oncall c.kind = false → ((w.param ()).vec c.kind).length ≤ I.fuel →
        NoneSkipped ((w.param ()).vec c.kind).zipIdx (c.turns I calls w) := by
  intro h
  let c : DispatchCall (natDesign Unit true) () := .preRead .unknown
  have hreached := (h (readersInterp 1) c _ (readers_unregister 1) twoReaders rfl (by decide)).reached
    (⟨numberedCallback .preRead 2, .unknown⟩, 1) (by decide)
  -- The one turn is that of the first callback, which leaves the second one.
  have hturns : c.turns (readersInterp 1) (readersCalls 1) twoReaders =
      [⟨(⟨numberedCallback .preRead 1, .unknown⟩, 0),
        [(⟨numberedCallback .preRead 1, .unknown⟩, 0), (⟨numberedCallback .preRead 2, .unknown⟩, 1)],
        [(⟨numberedCallback .preRead 2, .unknown⟩, 1)], true⟩] := by
    decide +kernel
  rw [hturns, reached_cons] at hreached
  rcases hreached with h | ⟨-, -, h⟩ | h
  · exact absurd (congrArg Prod.snd h) (by decide)
  · exact h List.mem_cons_self
  · rcases h with h | ⟨t, ht, -⟩
    · cases h
    · cases ht

/-- A broker whose callback 1 unregisters callback 2. -/
def createEnv : BrokerEnv (ConsumingBroker Unit ℕ) Unit ℕ where
  broker := Lens.self _
  name := fun _ => "top.p"
  report := Eff.raise
  call := fun held _ =>
    if held.get.addr = 1 then Eff.modify fun b =>
      (b.unregisterCallback .create (numberedCallback .preRead 2) .unknown).2
    else pure ()
  fuel := 2

def createCalls (entry : BrokerCallbackObj) (_ : ConsumingBroker Unit ℕ) :
    List (CallbackHandle × CciOriginator) :=
  if entry.callback.get.map CallbackImpl.addr = some 1 then
    [(numberedCallback .preRead 2, .unknown)]
  else []

theorem createEnv_unregisters : createEnv.Unregisters .create () createCalls := by
  rintro ⟨_ | held, o⟩ b
  · rfl
  · by_cases haddr : held.get.addr = 1
    · have hcalls : createCalls ⟨some held, o⟩ b = [(numberedCallback .preRead 2, .unknown)] := by
        simp [createCalls, CallbackHandle.get, haddr]
      rw [hcalls]
      simp only [createEnv, BrokerEnv.invoke, haddr, if_true]
      exact BrokerEnv.callbackVec_unregisterCallback .create _ _ b
    · have hcalls : createCalls ⟨some held, o⟩ b = [] := by
        simp [createCalls, CallbackHandle.get, haddr]
      rw [hcalls]
      simp only [createEnv, BrokerEnv.invoke, haddr, if_false]
      rfl

/-- The first of two callbacks unregisters the second one, on a parameter and on a broker. -/
theorem removal_during_dispatch_exact_later :
    NoneSkipped ((twoReaders.param ()).vec .preRead).zipIdx
        ((DispatchCall.preRead .unknown : DispatchCall (natDesign Unit true) ()).turns
          (readersInterp 2) (readersCalls 2) twoReaders) ∧
    ∃ b, NoneSkipped (createEnv.vec .create (createEnv.entered .create () b)).zipIdx
        (createEnv.turns .create () createCalls b) := by
  have hexact := removal_during_dispatch_exact (readersInterp 2) ()
    (.preRead .unknown : DispatchCall (natDesign Unit true) ()) (readersCalls 2) createEnv .create ()
    createCalls
  constructor
  · let c : DispatchCall (natDesign Unit true) () := .preRead .unknown
    have hturns : c.turns (readersInterp 2) (readersCalls 2) twoReaders =
        [⟨(⟨numberedCallback .preRead 1, .unknown⟩, 0),
          [(⟨numberedCallback .preRead 1, .unknown⟩, 0),
            (⟨numberedCallback .preRead 2, .unknown⟩, 1)],
          [(⟨numberedCallback .preRead 1, .unknown⟩, 0)], true⟩] := by
      decide +kernel
    refine (hexact.1 (readers_unregister 2) twoReaders rfl (by decide)).2.2.2 ?_
    rw [hturns]
    simp [Turn.Harmless]
  · let b : ConsumingBroker Unit ℕ :=
      { mCreateCallbacks := [⟨numberedCallback .preRead 1, .unknown⟩,
          ⟨numberedCallback .preRead 2, .unknown⟩] }
    have hturns : createEnv.turns .create () createCalls b =
        [⟨(⟨numberedCallback .preRead 1, .unknown⟩, 0),
          [(⟨numberedCallback .preRead 1, .unknown⟩, 0),
            (⟨numberedCallback .preRead 2, .unknown⟩, 1)],
          [(⟨numberedCallback .preRead 1, .unknown⟩, 0)], true⟩] := by
      decide +kernel
    refine ⟨b, (hexact.2 createEnv_unregisters b (fun _ => ?_) (by decide +kernel)).2.2.2 ?_⟩
    · exact Std.ExtTreeMap.not_mem_empty
    · rw [hturns]
      simp [Turn.Harmless]

end Cci
