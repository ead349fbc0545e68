import Cci.Lib.VectorLoop
import Cci.Cfg.WriteByReference
import Cci.Cfg.Unchanged
import Cci.Utils.ConsumingBroker

/-!
# The outcome of a write

A write goes through its gates, then every pre-write callback is asked in its turn, then the value
is stored and every post-write callback is told.  Up to the assignments a failure leaves nothing
behind.

* `Aloof` — callbacks that leave the parameter alone;
* `InTurn` — every entry of a list is invoked in its turn, with good answers;
* `preWriteCallbackRef_settles`, `postWriteCallbackRef_settles` — the two dispatches;
* `Replies`, `inTurn_iff` — callbacks whose answer to an event is fixed: then the turn of an entry
  does not matter;
* `write_outcome` — the write.
-/

namespace Cci

open Effect CciParamTyped VectorLoop

variable {D : Design} {B : Type}

/-! ### Answers -/

/-- How a computation ends that yields `x`. -/
def ending {α : Type} : Except Report α → Outcome Report α
  | .ok a => .ok a
  | .error r => .throw r

@[simp] theorem ending_ok {α : Type} (a : α) : ending (.ok a : Except Report α) = .ok a := rfl
@[simp] theorem ending_error {α : Type} (r : Report) :
    ending (.error r : Except Report α) = .throw r := rfl

/-- The `cci_value` of a value, or the report of a failed conversion when such reports throw. -/
def cciOf (p : D.Param) (v : D.Value p) : Except Report D.CciValue :=
  if (D.pack p v).1 = true ∨ D.throws = false then .ok (D.pack p v).2
  else .error (cciValueFailure "conversion to cci_value failed")

/-- The untyped form of an event. -/
def untypedEvent (p : D.Param) : ParamEvent (D.Value p) → Except Report (ParamEvent D.CciValue)
  | .write oldValue newValue originator paramHandle => do
      let oldCci ← cciOf p oldValue
      let newCci ← cciOf p newValue
      pure (.write oldCci newCci originator paramHandle)
  | .read value originator paramHandle => do
      let cci ← cciOf p value
      pure (.read cci originator paramHandle)

section

variable (reply : CallbackImpl → Payload D → Except Report Bool)

/-- What an invocation of a held callback with an event comes to. -/
def heldAnswer (p : D.Param) (ev : ParamEvent (D.Value p)) : Held → Except Report Bool
  | .impl f => reply f (.typed p ev)
  | .adapt f _ => (untypedEvent p ev).bind fun cciEv => reply f (.untyped p cciEv)

/-- The entry holds a callback of the list `k`, and its answer to the event is `good`. -/
def Answers (p : D.Param) (k : CallbackKind) (ev : ParamEvent (D.Value p)) (good : Bool → Prop)
    (entry : CallbackObj) : Prop :=
  ∃ held b, typedHandle p k entry = some held ∧ heldAnswer reply p ev held = .ok b ∧ good b

end

/-- The callback is registered in one of the two lists a write dispatches. -/
def HearsWrites {T : Type} (q : CciParam T) (f : CallbackImpl) : Prop :=
  ∃ k, (k = .preWrite ∨ k = .postWrite) ∧ ∃ entry ∈ q.vec k, entry.callback.get = some f

/-- Every entry of the two lists holds a callback of the signature of its list. -/
def Matching (p : D.Param) (q : CciParam (D.Value p)) : Prop :=
  ∀ k, (k = .preWrite ∨ k = .postWrite) → ∀ entry ∈ q.vec k, (typedHandle p k entry).isSome = true

/-- While the surroundings of `p` are as `P` says, a callback that hears the writes of `q` comes
back, normally or by an exception, leaves `p` alone and keeps the surroundings so. -/
structure Aloof (I : Interp D B) (p : D.Param) (q : CciParam (D.Value p)) (P : World D B → Prop) :
    Prop where
  surroundings : ∀ w w' : World D B, (∀ r, r ≠ p → w'.param r = w.param r) →
    w'.store.broker = w.store.broker → P w → P w'
  call : ∀ f, HearsWrites q f → ∀ ev w, P w → ∃ out t, I.call f ev w = (out, t) ∧
    out.returned = true ∧ P t ∧ t.param p = w.param p ∧ t.postWrites p = w.postWrites p

/-- While the surroundings are as `P` says, such a callback answers an event with `reply`. -/
def Replies (I : Interp D B) (p : D.Param) (q : CciParam (D.Value p)) (P : World D B → Prop)
    (reply : CallbackImpl → Payload D → Except Report Bool) : Prop :=
  ∀ f, HearsWrites q f → ∀ ev w, P w → (I.call f ev w).1 = ending (reply f ev)

/-- From `w`, every entry of a list holds a callback of the list `k` that in its turn gives a `good`
answer to its event; `t` is the state after the last one. -/
inductive InTurn (I : Interp D B) (p : D.Param) (k : CallbackKind)
    (event : CallbackObj → ParamEvent (D.Value p)) (good : Bool → Prop) :
    List CallbackObj → World D B → World D B → Prop where
  | nil {w : World D B} : InTurn I p k event good [] w w
  | cons {entry : CallbackObj} {ℓ : List CallbackObj} {held : Held} {b : Bool} {w u t : World D B} :
      typedHandle p k entry = some held →
      invokeHeld I p k entry (event entry) held w = (.ok b, u) → good b →
      InTurn I p k event good ℓ u t → InTurn I p k event good (entry :: ℓ) w t

theorem inTurn_nil {I : Interp D B} {p : D.Param} {k : CallbackKind}
    {event : CallbackObj → ParamEvent (D.Value p)} {good : Bool → Prop} {w t : World D B} :
    InTurn I p k event good [] w t ↔ t = w := by
  constructor
  · intro h
    cases h
    rfl
  · rintro rfl
    exact .nil

theorem inTurn_cons {I : Interp D B} {p : D.Param} {k : CallbackKind}
    {event : CallbackObj → ParamEvent (D.Value p)} {good : Bool → Prop} {entry : CallbackObj}
    {ℓ : List CallbackObj} {held : Held} (hh : typedHandle p k entry = some held)
    {w t : World D B} : InTurn I p k event good (entry :: ℓ) w t ↔
      ∃ b u, invokeHeld I p k entry (event entry) held w = (.ok b, u) ∧ good b ∧
        InTurn I p k event good ℓ u t := by
  constructor
  · intro h
    cases h with
    | cons hh' hrun hgood hrest =>
      cases hh.symm.trans hh'
      exact ⟨_, _, hrun, hgood, hrest⟩
  · rintro ⟨b, u, hrun, hgood, hrest⟩
    exact .cons hh hrun hgood hrest

/-- A recovered callback is the one of the entry. -/
theorem get_typedHandle {p : D.Param} {k : CallbackKind} {entry : CallbackObj} {held : Held}
    (h : typedHandle p k entry = some held) : entry.callback.get = some held.get := by
  unfold typedHandle cciCallbackTypedHandle at h
  cases hcb : entry.callback with
  | none => rw [hcb] at h; cases h
  | some own =>
    rw [hcb] at h
    simp only at h
    split at h
    · cases h
      rfl
    · unfold genericAdaptConvert at h
      split at h
      · rename_i g f _ hf
        split at h
        · cases h
          cases hf
          rfl
        · cases h
      · cases h

theorem hearsWrites_of_mem {p : D.Param} {q : CciParam (D.Value p)} {k : CallbackKind}
    (hk : k = .preWrite ∨ k = .postWrite) {entry : CallbackObj} (hmem : entry ∈ q.vec k)
    {held : Held} (hh : typedHandle p k entry = some held) : HearsWrites q held.get :=
  ⟨k, hk, entry, hmem, get_typedHandle hh⟩

/-! ### Conversions -/

theorem cciValueOf_run (p : D.Param) (v : D.Value p) (w : World D B) :
    ∃ t, cciValueOf p v w = (ending (cciOf p v), t) ∧ t.store = w.store ∧
      t.postWrites p = w.postWrites p := by
  unfold cciValueOf cciOf
  by_cases hpack : (D.pack p v).1 = true
  · refine ⟨w, ?_, rfl, rfl⟩
    simp [hpack]
  · refine ⟨w.record (.report (cciValueFailure "conversion to cci_value failed")), ?_, rfl, ?_⟩
    · cases hthrows : D.throws with
      | true => simp [hpack, hthrows, Eff.bind_run, reportError_run]
      | false => simp [hpack, hthrows, Eff.bind_run, reportError_run]
    · rw [World.postWrites_record]
      exact List.append_nil _

theorem genericWrap_run (p : D.Param) (ev : ParamEvent (D.Value p)) (w : World D B) :
    ∃ t, genericWrap p ev w = (ending (untypedEvent p ev), t) ∧ t.store = w.store ∧
      t.postWrites p = w.postWrites p := by
  cases ev with
  | write oldValue newValue originator paramHandle =>
    obtain ⟨t, ht, hstore, hpost⟩ := cciValueOf_run p oldValue w
    obtain ⟨u, hu, hstore', hpost'⟩ := cciValueOf_run p newValue t
    simp only [genericWrap, untypedEvent]
    rw [Eff.bind_run, ht]
    cases cciOf p oldValue with
    | error r => exact ⟨t, rfl, hstore, hpost⟩
    | ok c =>
      simp only [ending_ok]
      rw [Eff.bind_run, hu]
      refine ⟨u, ?_, hstore'.trans hstore, hpost'.trans hpost⟩
      cases cciOf p newValue <;> rfl
  | read value originator paramHandle =>
    obtain ⟨t, ht, hstore, hpost⟩ := cciValueOf_run p value w
    simp only [genericWrap, untypedEvent]
    rw [Eff.bind_run, ht]
    refine ⟨t, ?_, hstore, hpost⟩
    cases cciOf p value <;> rfl

/-! ### One entry -/

/-- `p` is `q`, its surroundings are as `P` says, and its post-write callbacks were told `es`. -/
structure Stays (p : D.Param) (P : World D B → Prop) (q : CciParam (D.Value p))
    (es : List (CallbackObj × ParamEvent (D.Value p))) (w : World D B) : Prop where
  surroundings : P w
  param : w.param p = q
  postWrites : w.postWrites p = es

section

variable {I : Interp D B} {p : D.Param} {q q₁ : CciParam (D.Value p)} {P : World D B → Prop}
variable (hI : Aloof I p q P)
variable {es : List (CallbackObj × ParamEvent (D.Value p))}

include hI

theorem Aloof.of_same {w w' : World D B} (hP : P w) (hstore : w'.store = w.store) : P w' :=
  hI.surroundings w w' (fun r _ => congrArg (fun s : Store D B => s.params r) hstore)
    (congrArg Store.broker hstore) hP

theorem Aloof.setParam {w : World D B} (hP : P w) (q' : CciParam (D.Value p)) :
    P (w.setParam p q') :=
  hI.surroundings w _ (fun _ hr => w.param_setParam_of_ne q' hr) rfl hP

/-- The untyped form of an event is built with the parameter as it was. -/
theorem genericWrap_settles (ev : ParamEvent (D.Value p)) {w : World D B}
    (hw : Stays p P q₁ es w) :
    ∃ u, genericWrap p ev w = (ending (untypedEvent p ev), u) ∧ Stays p P q₁ es u := by
  obtain ⟨u, hu, hstore, hkept⟩ := genericWrap_run p ev w
  refine ⟨u, hu, hI.of_same hw.surroundings hstore, ?_, hkept.trans hw.postWrites⟩
  show u.store.params p = q₁
  rw [hstore]
  exact hw.param

/-- An invocation comes back, and these are the post-write callbacks that have been told then. -/
theorem invokeHeld_settles (k : CallbackKind) (entry : CallbackObj) (ev : ParamEvent (D.Value p))
    {held : Held} (hheard : HearsWrites q held.get) {w : World D B} (hw : Stays p P q₁ es w) :
    ∃ out t, invokeHeld I p k entry ev held w = (out, t) ∧ out.returned = true ∧ P t ∧
      t.param p = q₁ ∧ (k = .preWrite → t.postWrites p = es) ∧
      (k = .postWrite → ∀ b, out = .ok b → t.postWrites p = es ++ [(entry, ev)]) := by
  -- The callback itself, from the state in which its invocation has been recorded.
  have hcall : ∀ (payload : Payload D) (u : World D B), Stays p P q₁ es u →
      ∃ out t, (log (.invoked p k entry ev) >>= fun _ => I.call held.get payload) u = (out, t) ∧
        out.returned = true ∧ P t ∧ t.param p = q₁ ∧ (k = .preWrite → t.postWrites p = es) ∧
        (k = .postWrite → ∀ b, out = .ok b → t.postWrites p = es ++ [(entry, ev)]) := by
    intro payload u hu
    obtain ⟨out, t, ht, hret, hP, hparam, hpost⟩ := hI.call held.get hheard payload
      (u.record (.invoked p k entry ev)) (hI.of_same hu.surroundings rfl)
    refine ⟨out, t, ht, hret, hP, hparam.trans hu.param, fun hk => ?_, fun hk _ _ => ?_⟩
    · subst hk
      rw [hpost, World.postWrites_record, hu.postWrites]
      exact List.append_nil es
    · subst hk
      rw [hpost, World.postWrites_record, hu.postWrites, TraceEvent.postWrite?, dif_pos rfl]
      rfl
  cases held with
  | impl f => exact hcall (.typed p ev) w hw
  | adapt f s =>
    obtain ⟨u, hu, hstays⟩ := genericWrap_settles hI ev hw
    simp only [invokeHeld]
    rw [Eff.bind_run, hu]
    cases untypedEvent p ev with
    | error r => exact ⟨.throw r, u, rfl, rfl, hstays.surroundings, hstays.param,
        fun _ => hstays.postWrites, fun _ b hb => by cases hb⟩
    | ok cciEv => exact hcall (.untyped p cciEv) u hstays

/-- An invocation of a callback whose answer to an event is fixed. -/
theorem invokeHeld_answer {reply : CallbackImpl → Payload D → Except Report Bool}
    (hR : Replies I p q P reply) (k : CallbackKind) (entry : CallbackObj)
    (ev : ParamEvent (D.Value p)) {held : Held} (hheard : HearsWrites q held.get) {w : World D B}
    (hw : Stays p P q₁ es w) :
    (invokeHeld I p k entry ev held w).1 = ending (heldAnswer reply p ev held) := by
  cases held with
  | impl f => exact hR f hheard (.typed p ev) _ (hI.of_same hw.surroundings rfl)
  | adapt f s =>
    obtain ⟨u, hu, hstays⟩ := genericWrap_settles hI ev hw
    simp only [invokeHeld, heldAnswer]
    rw [Eff.bind_run, hu]
    cases untypedEvent p ev with
    | error r => rfl
    | ok cciEv => exact hR f hheard (.untyped p cciEv) _ (hI.of_same hstays.surroundings rfl)

/-- Callbacks that are invoked in turn keep the surroundings and leave the parameter alone. -/
theorem InTurn.keeps {k : CallbackKind} (hk : k = .preWrite ∨ k = .postWrite)
    {event : CallbackObj → ParamEvent (D.Value p)} {good : Bool → Prop} {ℓ : List CallbackObj}
    {w t : World D B} (h : InTurn I p k event good ℓ w t) (hmem : ∀ entry ∈ ℓ, entry ∈ q.vec k)
    (hP : P w) : P t := by
  induction h with
  | nil => exact hP
  | @cons entry ℓ held b w u t hh hrun _ _ ih =>
    obtain ⟨out, u', hu, -, hP', -⟩ := invokeHeld_settles hI k entry (event entry)
      (hearsWrites_of_mem hk (hmem entry List.mem_cons_self) hh) ⟨hP, rfl, rfl⟩
    rw [hrun] at hu
    cases hu
    exact ih (fun e he => hmem e (List.mem_cons_of_mem _ he)) hP'

/-- When the answer to an event is fixed, it does not matter whose turn it is. -/
theorem inTurn_iff {reply : CallbackImpl → Payload D → Except Report Bool}
    (hR : Replies I p q P reply) {k : CallbackKind} (hk : k = .preWrite ∨ k = .postWrite)
    (event : CallbackObj → ParamEvent (D.Value p)) (good : Bool → Prop) (ℓ : List CallbackObj)
    (hmem : ∀ entry ∈ ℓ, entry ∈ q.vec k)
    (hvalid : ∀ entry ∈ ℓ, (typedHandle p k entry).isSome = true) {w : World D B}
    (hP : P w) (hparam : w.param p = q₁) :
    (∃ t, InTurn I p k event good ℓ w t) ↔
      ∀ entry ∈ ℓ, Answers reply p k (event entry) good entry := by
  induction ℓ generalizing w with
  | nil => simp [inTurn_nil]
  | cons entry ℓ ih =>
    obtain ⟨held, hh⟩ := Option.isSome_iff_exists.1 (hvalid entry List.mem_cons_self)
    have hheard := hearsWrites_of_mem hk (hmem entry List.mem_cons_self) hh
    have hw : Stays p P q₁ (w.postWrites p) w := ⟨hP, hparam, rfl⟩
    obtain ⟨out, t, ht, -, hP', hparam', -⟩ :=
      invokeHeld_settles hI k entry (event entry) hheard hw
    have hanswer := invokeHeld_answer hI hR k entry (event entry) hheard hw
    rw [ht] at hanswer
    have ih := ih (fun e he => hmem e (List.mem_cons_of_mem _ he))
      (fun e he => hvalid e (List.mem_cons_of_mem _ he)) hP' hparam'
    rw [List.forall_mem_cons, ← ih]
    simp only [inTurn_cons hh, ht]
    constructor
    · rintro ⟨t', b, u, hrun, hgood, hrest⟩
      cases hrun
      refine ⟨⟨held, b, hh, ?_, hgood⟩, t', hrest⟩
      cases hans : heldAnswer reply p (event entry) held with
      | error r =>
        rw [hans] at hanswer
        cases hanswer
      | ok b' =>
        rw [hans] at hanswer
        cases hanswer
        rfl
    · rintro ⟨⟨held', b, hh', hans, hgood⟩, t', hrest⟩
      cases hh.symm.trans hh'
      rw [hans] at hanswer
      cases hanswer
      exact ⟨t', b, t, rfl, hgood, hrest⟩

/-- Reporting a rejection comes back, without acceptance. -/
theorem reject_settles (r : Report) {w : World D B} (hw : Stays p P q₁ es w) :
    ∃ out t, refuse r w = (out, t) ∧ Stays p P q₁ es t ∧ out.returned = true ∧ out ≠ .ok true := by
  refine ⟨_, _, refuse_run r w, ⟨hI.of_same hw.surroundings rfl, hw.param, ?_⟩, ?_, ?_⟩
  · rw [World.postWrites_record, hw.postWrites]
    exact List.append_nil es
  · split <;> rfl
  · split <;> simp

variable {value : World D B → D.Value p} {v : D.Value p}
variable (hvalue : ∀ u, P u → u.param p = q₁ → value u = v)

include hvalue

/-- One round of the pre-write loop. -/
theorem preWriteEntryRef_settles (o : CciOriginator) {entry : CallbackObj} {held : Held}
    (hmem : entry ∈ q.vec .preWrite) (hh : typedHandle p .preWrite entry = some held)
    (result : Bool) {w : World D B} (hw : Stays p P q₁ es w) :
    ∃ out t, preWriteEntryRef I p value o entry result w = (out, t) ∧ Stays p P q₁ es t ∧
      out.returned = true ∧ ∀ t', (out, t) = (.ok true, t') ↔ result = true ∧
        invokeHeld I p .preWrite entry (.write q₁.mValue v o entry.originator) held w =
          (.ok true, t') := by
  obtain ⟨out, t, ht, hret, hP, hparam, hpre, -⟩ := invokeHeld_settles hI .preWrite entry
    (.write q₁.mValue v o entry.originator) (hearsWrites_of_mem (.inl rfl) hmem hh) hw
  have hstays : Stays p P q₁ es t := ⟨hP, hparam, hpre rfl⟩
  simp only [preWriteEntryRef, preWriteEntry, getParam, Eff.gets_bind_run,
    hvalue w hw.surroundings hw.param, hw.param, hh, invokeTyped]
  rw [Eff.bind_run, ht]
  rcases out with (_ | _) | r | _ | _
  · obtain ⟨out, u, hu, hu', hret, hne⟩ :=
      reject_settles hI (setParamFailed "Value rejected by callback.") hstays
    refine ⟨out, u, hu, hu', hret, fun t' => iff_of_false ?_ (by simp)⟩
    exact fun h => hne (congrArg Prod.fst h)
  · exact ⟨.ok result, t, rfl, hstays, rfl, fun t' => by simp⟩
  · exact ⟨.throw r, t, rfl, hstays, rfl, fun t' => by simp⟩
  · cases hret
  · cases hret

/-- The pre-write loop comes back with acceptance when every entry accepts in its turn. -/
theorem runEach_preWriteRef (o : CciOriginator) (ℓ : List CallbackObj)
    (hmem : ∀ entry ∈ ℓ, entry ∈ q.vec .preWrite)
    (hvalid : ∀ entry ∈ ℓ, (typedHandle p .preWrite entry).isSome = true) (result : Bool)
    {w : World D B} (hw : Stays p P q₁ es w) :
    ∃ out t, runEach (preWriteEntryRef I p value o) ℓ result w = (out, t) ∧ Stays p P q₁ es t ∧
      out.returned = true ∧ ∀ t', (out, t) = (.ok true, t') ↔ result = true ∧
        InTurn I p .preWrite (fun entry => .write q₁.mValue v o entry.originator) (· = true)
          ℓ w t' := by
  induction ℓ generalizing result w with
  | nil => exact ⟨.ok result, w, rfl, hw, rfl, fun t' => by simp [inTurn_nil, eq_comm]⟩
  | cons entry ℓ ih =>
    obtain ⟨held, hh⟩ := Option.isSome_iff_exists.1 (hvalid entry List.mem_cons_self)
    obtain ⟨out, t, ht, hstays, hret, hiff⟩ := preWriteEntryRef_settles hI hvalue o
      (hmem entry List.mem_cons_self) hh result hw
    simp only [runEach, inTurn_cons hh]
    rw [Eff.bind_run, ht]
    rcases out with b | r | _ | _
    · obtain ⟨out', u, hu, hu', hret', hiff'⟩ := ih
        (fun e he => hmem e (List.mem_cons_of_mem _ he))
        (fun e he => hvalid e (List.mem_cons_of_mem _ he)) b hstays
      refine ⟨out', u, hu, hu', hret', fun t' => (hiff' t').trans ?_⟩
      constructor
      · rintro ⟨rfl, hrest⟩
        obtain ⟨hres, hrun⟩ := (hiff t).1 rfl
        exact ⟨hres, true, t, hrun, rfl, hrest⟩
      · rintro ⟨hres, b', u', hrun, rfl, hrest⟩
        cases (hiff u').2 ⟨hres, hrun⟩
        exact ⟨rfl, hrest⟩
    · refine ⟨.throw r, t, rfl, hstays, rfl, fun t' => iff_of_false (by simp) ?_⟩
      rintro ⟨hres, b', u', hrun, rfl, -⟩
      cases (hiff u').2 ⟨hres, hrun⟩
    · cases hret
    · cases hret

/-- One round of the post-write loop. -/
theorem postWriteEntryRef_settles (oldValue : D.Value p) (o : CciOriginator) {entry : CallbackObj}
    {held : Held} (hmem : entry ∈ q.vec .postWrite) (hh : typedHandle p .postWrite entry = some held)
    {w : World D B} (hw : Stays p P q₁ es w) :
    ∃ out t, postWriteEntryRef I p oldValue value o entry () w = (out, t) ∧
      P t ∧ t.param p = q₁ ∧ out.returned = true ∧
      (∀ t', (out, t) = (.ok (), t') ↔ ∃ b, invokeHeld I p .postWrite entry
        (.write oldValue v o entry.originator) held w = (.ok b, t')) ∧
      (out = .ok () → t.postWrites p = es ++ [(entry, .write oldValue v o entry.originator)]) := by
  obtain ⟨out, t, ht, hret, hP, hparam, -, hpost⟩ := invokeHeld_settles hI .postWrite entry
    (.write oldValue v o entry.originator) (hearsWrites_of_mem (.inr rfl) hmem hh) hw
  simp only [postWriteEntryRef, observerEntry, hh, Option.isSome_some, if_true, getParam,
    Eff.gets_bind_run, hvalue w hw.surroundings hw.param, invokeTyped]
  rw [Eff.bind_run, ht]
  rcases out with b | r | _ | _
  · refine ⟨.ok (), t, rfl, hP, hparam, rfl, fun t' => ?_, fun _ => hpost rfl b rfl⟩
    simp
  · exact ⟨.throw r, t, rfl, hP, hparam, rfl, fun t' => by simp, by simp⟩
  · cases hret
  · cases hret

/-- The post-write loop tells every entry, until one throws. -/
theorem runEach_postWriteRef (oldValue : D.Value p) (o : CciOriginator) (ℓ : List CallbackObj)
    (hmem : ∀ entry ∈ ℓ, entry ∈ q.vec .postWrite)
    (hvalid : ∀ entry ∈ ℓ, (typedHandle p .postWrite entry).isSome = true)
    {w : World D B} (hw : Stays p P q₁ es w) :
    ∃ out t, runEach (postWriteEntryRef I p oldValue value o) ℓ () w = (out, t) ∧
      P t ∧ t.param p = q₁ ∧ out.returned = true ∧
      (∀ t', (out, t) = (.ok (), t') ↔ InTurn I p .postWrite
        (fun entry => .write oldValue v o entry.originator) (fun _ => True) ℓ w t') ∧
      (out = .ok () → t.postWrites p =
        es ++ ℓ.map fun entry => (entry, .write oldValue v o entry.originator)) := by
  induction ℓ generalizing es w with
  | nil => exact ⟨.ok (), w, rfl, hw.surroundings, hw.param, rfl,
      fun t' => by simp [inTurn_nil, eq_comm], fun _ => by simpa using hw.postWrites⟩
  | cons entry ℓ ih =>
    obtain ⟨held, hh⟩ := Option.isSome_iff_exists.1 (hvalid entry List.mem_cons_self)
    obtain ⟨out, t, ht, hP, hparam, hret, hiff, hpost⟩ := postWriteEntryRef_settles hI hvalue
      oldValue o (hmem entry List.mem_cons_self) hh hw
    simp only [runEach, inTurn_cons hh, List.map_cons]
    rw [Eff.bind_run, ht]
    rcases out with ⟨⟩ | r | _ | _
    · obtain ⟨out', u, hu, hP', hparam', hret', hiff', hpost'⟩ := ih
        (fun e he => hmem e (List.mem_cons_of_mem _ he))
        (fun e he => hvalid e (List.mem_cons_of_mem _ he)) ⟨hP, hparam, hpost rfl⟩
      refine ⟨out', u, hu, hP', hparam', hret', fun t' => (hiff' t').trans ?_, fun hout => ?_⟩
      · constructor
        · intro hrest
          obtain ⟨b, hrun⟩ := (hiff t).1 rfl
          exact ⟨b, t, hrun, trivial, hrest⟩
        · rintro ⟨b, u', hrun, -, hrest⟩
          cases (hiff u').2 ⟨b, hrun⟩
          exact hrest
      · rw [hpost' hout, List.append_assoc]
        rfl
    · refine ⟨.throw r, t, rfl, hP, hparam, rfl, fun t' => iff_of_false (by simp) ?_, by simp⟩
      rintro ⟨b, u', hrun, -, -⟩
      cases (hiff u').2 ⟨b, hrun⟩
    · cases hret
    · cases hret

omit hvalue

/-! ### The dispatches -/

omit hI in
/-- A dispatch whose turns keep its list runs the body on each entry, and restores the guard. -/
theorem guarded_runEach {α : Type} {k : CallbackKind} (act : CallbackObj → α → CciM D B α)
    (init skip : α) {w : World D B} (hg : (w.param p).oncall k = false)
    (hfuel : ((w.param p).vec k).length ≤ I.fuel) (J : World D B → Prop)
    (henter : J (enterDispatch p k w)) (hJ : ∀ u, J u → u.param p = (w.param p).setOncall k true)
    (hact : ∀ entry ∈ (w.param p).vec k, ∀ acc u acc' t, J u → act entry acc u = (.ok acc', t) → J t)
    {out : Outcome Report α} {t : World D B}
    (hrun : runEach act ((w.param p).vec k) init (enterDispatch p k w) = (out, t))
    (hret : out.returned = true) (ht : t.param p = (w.param p).setOncall k true) :
    guarded I p k act init skip w = (out, leaveDispatch p k t) ∧
      (leaveDispatch p k t).param p = w.param p := by
  have helem : ∀ u, J u → ∀ i, entryAt p k u i = ((w.param p).vec k)[i]? := by
    intro u hu i
    rw [entryAt, hJ u hu, CciParam.vec_setOncall]
  have hloop := forEach_eq_runEach helem hact I.fuel 0 init (enterDispatch p k w) henter (by omega)
  rw [List.drop_zero, hrun] at hloop
  constructor
  · rw [guarded_open hg]
    simp only [dispatch, scopedTrue, Eff.modify_bind_run, Eff.finalizing, hloop]
    rcases out with a | r | _ | _
    · rfl
    · rfl
    · cases hret
    · cases hret
  · rw [param_leaveDispatch, ht, CciParam.setOncall_setOncall _ _ hg]

theorem stays_enterDispatch {k : CallbackKind} {w : World D B} (hw : Stays p P q₁ es w) :
    Stays p P (q₁.setOncall k true) es (enterDispatch p k w) := by
  refine ⟨?_, ?_, ?_⟩
  · exact hI.surroundings w _ (fun r hr => param_enterDispatch_of_ne w k hr) rfl hw.surroundings
  · rw [param_enterDispatch, hw.param]
  · rw [postWrites_enterDispatch, hw.postWrites]

variable {value : World D B → D.Value p} {v : D.Value p}

/-- `pre_write_callback` lets the write pass when every entry accepts in its turn, and leaves
everything as it was. -/
theorem preWriteCallbackRef_settles
    (hvalue : ∀ u, P u → u.param p = q₁.setOncall .preWrite true → value u = v) (o : CciOriginator)
    {w : World D B} (hw : Stays p P q₁ es w) (hg : q₁.oncall .preWrite = false)
    (hvec : q₁.vec .preWrite = q.vec .preWrite) (hsig : Matching p q)
    (hfuel : (q.vec .preWrite).length ≤ I.fuel) :
    ∃ out t, preWriteCallbackRef I p value o w = (out, leaveDispatch p .preWrite t) ∧
      Stays p P q₁ es (leaveDispatch p .preWrite t) ∧ out.returned = true ∧
      ∀ t', (out, t) = (.ok true, t') ↔ InTurn I p .preWrite
        (fun entry => .write q₁.mValue v o entry.originator) (· = true) (q.vec .preWrite)
        (enterDispatch p .preWrite w) t' := by
  have henter := stays_enterDispatch hI (k := .preWrite) hw
  obtain ⟨out, t, ht, hstays, hret, hiff⟩ := runEach_preWriteRef hI hvalue o (q.vec .preWrite)
    (fun _ h => h) (hsig .preWrite (.inl rfl)) true henter
  obtain ⟨hrun, hparam⟩ := guarded_runEach (preWriteEntryRef I p value o) true false
    (by rw [hw.param]; exact hg) (by rw [hw.param, hvec]; exact hfuel)
    (Stays p P (q₁.setOncall .preWrite true) es) henter (fun u hu => by rw [hw.param]; exact hu.param)
    (fun entry hmem acc u acc' t hu hact => by
      rw [hw.param, hvec] at hmem
      obtain ⟨held, hh⟩ := Option.isSome_iff_exists.1 (hsig .preWrite (.inl rfl) entry hmem)
      obtain ⟨_, t', ht', hstays', -⟩ := preWriteEntryRef_settles hI hvalue o hmem hh acc hu
      rw [hact] at ht'
      cases ht'
      exact hstays')
    (by rw [hw.param, hvec]; exact ht) hret (by rw [hw.param]; exact hstays.param)
  refine ⟨out, t, hrun, ⟨?_, hparam.trans hw.param, hstays.postWrites⟩, hret, fun t' => ?_⟩
  · exact hI.surroundings t _ (fun r hr => param_leaveDispatch_of_ne t _ hr) rfl hstays.surroundings
  · exact (hiff t').trans (and_iff_right rfl)

/-- `post_write_callback` tells every entry until one throws, and leaves the parameter alone. -/
theorem postWriteCallbackRef_settles
    (hvalue : ∀ u, P u → u.param p = q₁.setOncall .postWrite true → value u = v)
    (oldValue : D.Value p) (o : CciOriginator) {w : World D B}
    (hw : Stays p P q₁ es w) (hg : q₁.oncall .postWrite = false)
    (hvec : q₁.vec .postWrite = q.vec .postWrite) (hsig : Matching p q)
    (hfuel : (q.vec .postWrite).length ≤ I.fuel) :
    ∃ out t, postWriteCallbackRef I p oldValue value o w = (out, t) ∧ t.param p = q₁ ∧
      out.returned = true ∧ (out = .ok () ↔ ∃ t', InTurn I p .postWrite
        (fun entry => .write oldValue v o entry.originator) (fun _ => True) (q.vec .postWrite)
        (enterDispatch p .postWrite w) t') ∧
      (out = .ok () → t.postWrites p = es ++ (q.vec .postWrite).map
        fun entry => (entry, .write oldValue v o entry.originator)) := by
  have henter := stays_enterDispatch hI (k := .postWrite) hw
  obtain ⟨out, t, ht, hP, hparam, hret, hiff, hpost⟩ := runEach_postWriteRef hI hvalue oldValue o
    (q.vec .postWrite) (fun _ h => h) (hsig .postWrite (.inr rfl)) henter
  obtain ⟨hrun, hleft⟩ := guarded_runEach (postWriteEntryRef I p oldValue value o) () ()
    (by rw [hw.param]; exact hg) (by rw [hw.param, hvec]; exact hfuel)
    (fun u => P u ∧ u.param p = q₁.setOncall .postWrite true)
    ⟨henter.surroundings, henter.param⟩ (fun u hu => by rw [hw.param]; exact hu.2)
    (fun entry hmem acc u acc' t hu hact => by
      rw [hw.param, hvec] at hmem
      obtain ⟨held, hh⟩ := Option.isSome_iff_exists.1 (hsig .postWrite (.inr rfl) entry hmem)
      obtain ⟨_, t', ht', hP', hparam', -⟩ := postWriteEntryRef_settles hI hvalue oldValue o hmem hh
        ⟨hu.1, hu.2, rfl⟩
      rw [show acc = () from rfl, ht'] at hact
      cases hact
      exact ⟨hP', hparam'⟩)
    (by rw [hw.param, hvec]; exact ht) hret (by rw [hw.param]; exact hparam)
  refine ⟨out, _, hrun, hleft.trans hw.param, hret, ⟨?_, ?_⟩, hpost⟩
  · rintro rfl
    exact ⟨t, (hiff t).1 rfl⟩
  · rintro ⟨t', h⟩
    exact congrArg Prod.fst ((hiff t').2 h)

end

/-! ### The write -/

/-- Without a password the parameter is unlocked, with one it is locked with that key. -/
def KeyFits {T : Type} (pwd : Option ℕ) (q : CciParam T) : Prop :=
  (pwd = none ∧ q.mLockPwd = none) ∨ ∃ key, pwd = some key ∧ q.mLockPwd = some key

/-- Every pre-write callback in its turn accepts the write of `v`; `t` is the state after the last
one. -/
def AllAccept (I : Interp D B) (p : D.Param) (v : D.Value p) (o : CciOriginator)
    (w t : World D B) : Prop :=
  InTurn I p .preWrite (fun entry => .write (w.param p).mValue v o entry.originator) (· = true)
    ((w.param p).vec .preWrite) (enterDispatch p .preWrite w) t

/-- The write of `v` may start, and every pre-write callback accepts it. -/
structure Passes (I : Interp D B) (p : D.Param) (v : D.Value p) (pwd : Option ℕ)
    (o : CciOriginator) (w t : World D B) : Prop where
  mutable : D.mutableType p ≠ .immutableParam
  key : KeyFits pwd (w.param p)
  accepted : AllAccept I p v o w t

/-- The state in which `v` has been stored, after the pre-write callbacks have led to `t`. -/
def storedFrom (p : D.Param) (v : D.Value p) (o : CciOriginator) (t : World D B) : World D B :=
  let u := leaveDispatch p .preWrite t
  u.setParam p (stored v o (u.param p))

/-- Then every post-write callback in its turn comes back. -/
def AllReturn (I : Interp D B) (p : D.Param) (v : D.Value p) (o : CciOriginator)
    (w t : World D B) : Prop :=
  ∃ u, InTurn I p .postWrite (fun entry => .write (w.param p).mValue v o entry.originator)
    (fun _ => True) ((w.param p).vec .postWrite)
    (enterDispatch p .postWrite (storedFrom p v o t)) u

/-- Of `p`, the value and its origin are the written ones, and at most `fast_write` has changed
besides. -/
def Assigned (p : D.Param) (v : D.Value p) (o : CciOriginator) (w w' : World D B) : Prop :=
  ∃ fast, w'.param p = { stored v o (w.param p) with fastWrite := fast }

/-- A write of `v` from `w` that ended in `w'` with `out`: it went through when every condition was
met, and then told every post-write callback once; a write that was refused or vetoed has left the
parameter as it was. -/
structure WriteEnds (I : Interp D B) (p : D.Param) (v : D.Value p) (pwd : Option ℕ)
    (o : CciOriginator) (w w' : World D B) (out : Outcome Report Bool) : Prop where
  returned : out.returned = true
  succeeds_iff : out = .ok true ↔ ∃ t, Passes I p v pwd o w t ∧ AllReturn I p v o w t
  assigned : (∃ t, Passes I p v pwd o w t) → Assigned p v o w w'
  told : out = .ok true → w'.postWrites p = w.postWrites p ++ ((w.param p).vec .postWrite).map
    fun entry => (entry, .write (w.param p).mValue v o entry.originator)
  untouched : (¬∃ t, Passes I p v pwd o w t) →
    w'.param p = w.param p ∧ w'.postWrites p = w.postWrites p

theorem writeRefusal_eq_none {p : D.Param} {pwd : Option ℕ} {q : CciParam (D.Value p)} :
    writeRefusal p pwd q = none ↔ D.mutableType p ≠ .immutableParam ∧ KeyFits pwd q := by
  unfold writeRefusal KeyFits CciParamUntyped.isLocked
  by_cases hm : D.mutableType p = .immutableParam
  · simp [hm]
  · cases pwd with
    | none => cases q.mLockPwd <;> simp [hm]
    | some key =>
      simp only [hm, if_false, ne_eq, not_false_eq_true, true_and]
      by_cases hkey : q.mLockPwd = some key
      · simp [hkey]
      · have hkey' : some key ≠ q.mLockPwd := fun h => hkey h.symm
        simp [hkey, hkey']

section

variable {I : Interp D B} {p : D.Param} {P : World D B → Prop} {w : World D B}
variable {value : World D B → D.Value p} {v : D.Value p}

/-- A write past its gates. -/
theorem rawWriteRef_settles (hI : Aloof I p (w.param p) P) (hP : P w)
    (hsig : Matching p (w.param p)) (hidle : ∀ k, (w.param p).oncall k = false)
    (hfuel : ∀ k, ((w.param p).vec k).length ≤ I.fuel)
    (hvalue : Steady p value P (w.param p).mValue v) (o : CciOriginator) :
    ∃ out w', rawWriteRef I p value o w = (out, w') ∧ out.returned = true ∧
      (∀ t, AllAccept I p v o w t →
        (out = .ok true ↔ AllReturn I p v o w t) ∧ Assigned p v o w w' ∧
        (out = .ok true → w'.postWrites p = w.postWrites p ++ ((w.param p).vec .postWrite).map
          fun entry => (entry, .write (w.param p).mValue v o entry.originator))) ∧
      ((¬∃ t, AllAccept I p v o w t) →
        out ≠ .ok true ∧ w'.param p = w.param p ∧ w'.postWrites p = w.postWrites p) := by
  have hw : Stays p P (w.param p) (w.postWrites p) w := ⟨hP, rfl, rfl⟩
  obtain ⟨out, t, hrun, hstays, hret, hiff⟩ := preWriteCallbackRef_settles hI
    (fun u hu hparam => hvalue u hu (.inl (by rw [hparam]; rfl))) o hw (hidle .preWrite)
    rfl hsig (hfuel .preWrite)
  by_cases hacc : ∃ t', (out, t) = (.ok true, t')
  · -- Every callback accepts: the value is stored, and the post-write callbacks are told.
    obtain ⟨t', heq⟩ := hacc
    cases heq
    have hstored : Stays p P (stored v o (w.param p)) (w.postWrites p) (storedFrom p v o t) := by
      refine ⟨hI.setParam hstays.surroundings _, ?_, hstays.postWrites⟩
      rw [storedFrom, World.param_setParam, hstays.param]
    obtain ⟨out', u, hu, hparam, hret', hiff', hpost⟩ := postWriteCallbackRef_settles hI
      (fun u hu hparam => hvalue u hu (.inr (by rw [hparam]; rfl)))
      (w.param p).mValue o hstored (hidle .postWrite) rfl hsig (hfuel .postWrite)
    have hsteady : value (leaveDispatch p .preWrite t) = v :=
      hvalue _ hstays.surroundings (.inl (congrArg CciParam.mValue hstays.param))
    obtain ⟨hok, hthrow⟩ := finishWriteRef_run (o := o) hsteady hu
    rw [rawWriteRef_passed hrun, hstays.param]
    have hin : ∀ t', AllAccept I p v o w t' → t' = t :=
      fun t' ht' => (congrArg Prod.snd ((hiff t').2 ht')).symm
    have hsome : ∃ t', AllAccept I p v o w t' := ⟨t, (hiff t).1 rfl⟩
    rcases out' with ⟨⟩ | r | _ | _
    · refine ⟨.ok true, _, hok rfl, rfl, fun t' ht' => ?_, fun h => absurd hsome h⟩
      obtain rfl := hin t' ht'
      refine ⟨iff_of_true rfl (hiff'.1 rfl), ?_, fun _ => hpost rfl⟩
      rw [Assigned, World.param_setParam, hparam]
      exact ⟨_, rfl⟩
    · refine ⟨.throw r, u, hthrow r rfl, rfl, fun t' ht' => ?_, fun h => absurd hsome h⟩
      obtain rfl := hin t' ht'
      refine ⟨iff_of_false (by simp) fun h => ?_, ⟨(w.param p).fastWrite, hparam⟩, by simp⟩
      exact absurd (hiff'.2 h) (by simp)
    · cases hret'
    · cases hret'
  · -- The write stops after the pre-write dispatch.
    have hne : out ≠ .ok true := by
      rintro rfl
      exact hacc ⟨t, rfl⟩
    exact ⟨out, _, rawWriteRef_stopped hrun hne, hret,
      fun t' ht' => absurd ⟨t', (hiff t').2 ht'⟩ hacc,
      fun _ => ⟨hne, hstays.param, hstays.postWrites⟩⟩

theorem setRawValueRef_ends (hI : Aloof I p (w.param p) P) (hP : P w)
    (hsig : Matching p (w.param p)) (hidle : ∀ k, (w.param p).oncall k = false)
    (hfuel : ∀ k, ((w.param p).vec k).length ≤ I.fuel)
    (hvalue : Steady p value P (w.param p).mValue v) (pwd : Option ℕ) (o : CciOriginator) :
    WriteEnds I p v pwd o w (setRawValueRef I p value pwd o w).2
      (setRawValueRef I p value pwd o w).1 := by
  rw [setRawValueRef_eq]
  cases href : writeRefusal p pwd (w.param p) with
  | some r =>
    have hno : ¬∃ t, Passes I p v pwd o w t := by
      rintro ⟨t, h⟩
      rw [writeRefusal_eq_none.2 ⟨h.mutable, h.key⟩] at href
      cases href
    simp only [refuse_run]
    have hne : (if D.throws then .throw r else .ok false : Outcome Report Bool) ≠ .ok true := by
      split <;> simp
    refine ⟨by split <;> rfl, iff_of_false hne fun ⟨t, h, _⟩ => hno ⟨t, h⟩, fun h => absurd h hno,
      fun h => absurd h hne, fun _ => ⟨rfl, ?_⟩⟩
    rw [World.postWrites_record]
    exact List.append_nil _
  | none =>
    obtain ⟨hmut, hkey⟩ := writeRefusal_eq_none.1 href
    obtain ⟨out, w', hrun, hret, hpass, hfail⟩ :=
      rawWriteRef_settles hI hP hsig hidle hfuel hvalue o
    have haccepted : out = .ok true → ∃ t, Passes I p v pwd o w t := by
      intro hout
      by_contra hno
      exact (hfail fun ⟨t, ht⟩ => hno ⟨t, hmut, hkey, ht⟩).1 hout
    simp only [hrun]
    refine ⟨hret, ⟨fun hout => ?_, ?_⟩, ?_, fun hout => ?_, fun h => ?_⟩
    · obtain ⟨t, h⟩ := haccepted hout
      exact ⟨t, h, (hpass t h.accepted).1.1 hout⟩
    · rintro ⟨t, h, hall⟩
      exact (hpass t h.accepted).1.2 hall
    · rintro ⟨t, h⟩
      exact (hpass t h.accepted).2.1
    · obtain ⟨t, h⟩ := haccepted hout
      exact (hpass t h.accepted).2.2 hout
    · exact (hfail fun ⟨t, ht⟩ => h ⟨t, hmut, hkey, ht⟩).2

/-- When the answer of every callback to an event is fixed, a write goes through when each callback
for itself lets it. -/
theorem setRawValueRef_ok_iff (hI : Aloof I p (w.param p) P) (hP : P w)
    (hsig : Matching p (w.param p)) (hidle : ∀ k, (w.param p).oncall k = false)
    (hfuel : ∀ k, ((w.param p).vec k).length ≤ I.fuel)
    (hvalue : Steady p value P (w.param p).mValue v)
    {reply : CallbackImpl → Payload D → Except Report Bool} (hR : Replies I p (w.param p) P reply)
    (pwd : Option ℕ) (o : CciOriginator) :
    (setRawValueRef I p value pwd o w).1 = .ok true ↔
      (D.mutableType p ≠ .immutableParam ∧ KeyFits pwd (w.param p)) ∧
      (∀ entry ∈ (w.param p).vec .preWrite, Answers reply p .preWrite
        (.write (w.param p).mValue v o entry.originator) (· = true) entry) ∧
      ∀ entry ∈ (w.param p).vec .postWrite, Answers reply p .postWrite
        (.write (w.param p).mValue v o entry.originator) (fun _ => True) entry := by
  have hw : Stays p P (w.param p) (w.postWrites p) w := ⟨hP, rfl, rfl⟩
  have henter := stays_enterDispatch hI (k := .preWrite) hw
  have hpre := inTurn_iff hI hR (.inl rfl)
    (fun entry => .write (w.param p).mValue v o entry.originator) (· = true)
    ((w.param p).vec .preWrite) (fun _ h => h) (hsig .preWrite (.inl rfl)) henter.surroundings
    henter.param
  -- The post-write callbacks are told in the state the accepting ones have led to.
  have hpost : ∀ t, P t → (AllReturn I p v o w t ↔ ∀ entry ∈ (w.param p).vec .postWrite,
      Answers reply p .postWrite (.write (w.param p).mValue v o entry.originator) (fun _ => True)
        entry) := by
    intro t ht
    have hleft : P (leaveDispatch p .preWrite t) :=
      hI.surroundings t _ (fun r hr => param_leaveDispatch_of_ne t _ hr) rfl ht
    have hstored : Stays p P _ _ (storedFrom p v o t) := ⟨hI.setParam hleft _, rfl, rfl⟩
    have henter := stays_enterDispatch hI (k := .postWrite) hstored
    exact inTurn_iff hI hR (.inr rfl) _ _ _ (fun _ h => h) (hsig .postWrite (.inr rfl))
      henter.surroundings henter.param
  rw [(setRawValueRef_ends hI hP hsig hidle hfuel hvalue pwd o).succeeds_iff, ← hpre]
  constructor
  · rintro ⟨t, h, hall⟩
    have ht := h.accepted.keeps hI (.inl rfl) (fun _ h => h) henter.surroundings
    exact ⟨⟨h.mutable, h.key⟩, ⟨t, h.accepted⟩, (hpost t ht).1 hall⟩
  · rintro ⟨⟨hmut, hkey⟩, ⟨t, hacc⟩, hall⟩
    have ht := hacc.keeps hI (.inl rfl) (fun _ h => h) henter.surroundings
    exact ⟨t, ⟨hmut, hkey, hacc⟩, (hpost t ht).2 hall⟩

end

/-! ### Callbacks that only answer -/

/-- The program that gives an answer. -/
def answerProg : Except Report Bool → Prog D
  | .ok b => .ret b
  | .error r => .raise r

theorem interp_aloof [CciBrokerIf B D.BrokerHandle D.CciValue] {p : D.Param}
    {P : World D B → Prop} (hP : ∀ w w' : World D B, (∀ r, r ≠ p → w'.param r = w.param r) →
      w'.store.broker = w.store.broker → P w → P w') (q : CciParam (D.Value p))
    (reply : CallbackImpl → Payload D → Except Report Bool) (n : ℕ) :
    Aloof (interp (fun f ev => answerProg (reply f ev)) (n + 1) : Interp D B) p q P where
  surroundings := hP
  call f _ ev w hw := by
    refine ⟨ending (reply f ev), w, ?_, ?_, hw, rfl, rfl⟩
    · show runProg (interp (fun f ev => answerProg (reply f ev)) n) (answerProg (reply f ev)) w = _
      cases reply f ev <;> rfl
    · cases reply f ev <;> rfl

/-- The entry of callback `n` in the list `k`. -/
def listener (k : CallbackKind) (n : ℕ) : CallbackObj := ⟨some (.impl ⟨n, k.signature 0⟩), .unknown⟩

/-- Of two parameters, `false` is 0 and has the given entries in one list, and `true` is 5. -/
def heardWorld (k : CallbackKind) (vec : List CallbackObj) :
    World (natDesign Bool true) (ConsumingBroker Bool ℕ) :=
  let w := natWorld true (fun _ => "top.p") (fun _ => 0) .unknown {}
  (w.setParam true { w.param true with mValue := (5 : ℕ) }).setParam false
    ((w.param false).setVec k vec)

/-- With one post-write callback nothing is being dispatched, and the loops have fuel. -/
theorem heardWorld_ready (n : ℕ) :
    let q := (heardWorld .postWrite [listener .postWrite n]).param false
    Matching (D := natDesign Bool true) false q ∧ (∀ k, q.oncall k = false) ∧
      ∀ k, (q.vec k).length ≤ 3 := by
  refine ⟨?_, fun k => by cases k <;> rfl, fun k => by cases k <;> exact Nat.le_of_ble_eq_true rfl⟩
  rintro k (rfl | rfl) entry he
  · cases he
  · obtain rfl := List.mem_singleton.1 he
    rfl

/-- Callback 1 throws, the others accept. -/
def firstThrows (f : CallbackImpl) (_ : Payload (natDesign Bool true)) : Except Report Bool :=
  if f.addr = 1 then .error (setParamFailed "first") else .ok true

/-- Callback 1 sets the other parameter to 1, callback 2 accepts when it finds it so. -/
def consulting (f : CallbackImpl) (_ : Payload (natDesign Bool true)) :
    Prog (natDesign Bool true) :=
  if f.addr = 1 then .cmd (.setValue true (1 : ℕ)) fun _ => .ret true
  else .cmd (.getValue true) fun
    | .ok (.value p v) => .ret ((natDesign Bool true).valueEq p v (1 : ℕ))
    | _ => .ret false

end Cci
