import Cci.Lib.VectorLoop
import Cci.Cfg.Dispatch
import Cci.Cfg.Reentrancy

/-!
# Callbacks of a foreign signature

A list of callbacks takes handles of any signature.  Each turn of a dispatch recovers the type of its
entry; the loops of three lists test whether that gave a valid handle, the loop of the pre-write list
does not.

* `recovered` — what a valid entry is served through;
* `DispatchCall.serve` — a loop body that passes over the entries that are not valid;
* `DispatchCall.runOr` — the dispatches with another computation in place of a failing assertion;
* `foreign_callbacks_exact` — when a dispatch serves exactly the valid entries.
-/

namespace Cci

open Effect CciParamTyped VectorLoop

variable {D : Design} {B : Type}

/-! ### Valid entries -/

/-- A callback of the signature of the list serves directly, an untyped one with the same result
through an adapter, and others do not. -/
def recovered (p : D.Param) (k : CallbackKind) (entry : CallbackObj) : Option Held :=
  entry.callback.bind fun held =>
    if held.sig = k.signature (D.typeId p) then some held
    else if held.get.sig = ⟨k.argType none, k.resultType⟩ then
      some (.adapt held.get (k.signature (D.typeId p)))
    else none

/-- The entry is valid for its list. -/
def ValidEntry (p : D.Param) (k : CallbackKind) (entry : CallbackObj) : Prop :=
  ∃ held, recovered p k entry = some held

theorem typedHandle_eq_recovered (p : D.Param) (k : CallbackKind) (entry : CallbackObj) :
    typedHandle p k entry = recovered p k entry := by
  have hgeneric : (k.signature (D.typeId p)).arg.genericType = some (k.argType none) := by
    cases k <;> rfl
  have hresult : (k.signature (D.typeId p)).result = k.resultType := rfl
  unfold typedHandle recovered cciCallbackTypedHandle
  cases entry.callback with
  | none => rfl
  | some held =>
    simp only [CallbackHandle.validFor, beq_iff_eq, genericAdaptConvert, hgeneric, hresult]
    rfl

namespace DispatchCall

variable {p : D.Param}

/-! ### Serving the valid entries -/

/-- What a call that finds the guard set answers. -/
def nested : (c : DispatchCall D p) → c.Result
  | preWrite .. => false
  | postWrite .. | preRead .. | postRead .. => ()

/-- What the loop makes of the answer of a callback. -/
def verdict : (c : DispatchCall D p) → Bool → c.Result → CciM D B c.Result
  | preWrite .., accepted, result =>
      if accepted then pure result
      else do
        reportError (setParamFailed "Value rejected by callback.")
        pure false
  | postWrite .., _, _ | preRead .., _, _ | postRead .., _, _ => pure ()

/-- A valid entry is invoked, and any other one is passed over. -/
def serve (I : Interp D B) (c : DispatchCall D p) (entry : CallbackObj) (acc : c.Result) :
    CciM D B c.Result :=
  match recovered p c.kind entry with
  | none => pure acc
  | some held => do
      let q ← getParam p
      let answer ← invokeHeld I p c.kind entry (c.event q entry) held
      c.verdict answer acc

/-! ### Failing assertions -/

/-- `invoke`, with `failed` in place of the failing `sc_assert( m_cb )`. -/
def invokeTypedOr (failed : CciM D B Bool) (I : Interp D B) (p : D.Param) (k : CallbackKind)
    (entry : CallbackObj) (ev : ParamEvent (D.Value p)) : CallbackHandle → CciM D B Bool
  | none => failed
  | some held => invokeHeld I p k entry ev held

/-- The body of the loop of `pre_write_callback`. -/
def preWriteEntryOr (failed : CciM D B Bool) (I : Interp D B) (p : D.Param) (value : D.Value p)
    (originator : CciOriginator) (entry : CallbackObj) (result : Bool) : CciM D B Bool := do
  let q ← getParam p
  let ev := .write q.mValue value originator entry.originator
  let accepted ← invokeTypedOr failed I p .preWrite entry ev (typedHandle p .preWrite entry)
  if accepted then pure result
  else
    reportError (setParamFailed "Value rejected by callback.")
    pure false

/-- The body of the other three loops. -/
def observerEntryOr (failed : CciM D B Bool) (I : Interp D B) (p : D.Param) (k : CallbackKind)
    (mkEvent : CciParam (D.Value p) → CallbackObj → ParamEvent (D.Value p))
    (entry : CallbackObj) (_ : Unit) : CciM D B Unit := do
  if (typedHandle p k entry).isSome then
    let q ← getParam p
    let _ ← invokeTypedOr failed I p k entry (mkEvent q entry) (typedHandle p k entry)
    pure ()
  else pure ()

def actOr (failed : CciM D B Bool) (I : Interp D B) :
    (c : DispatchCall D p) → CallbackObj → c.Result → CciM D B c.Result
  | preWrite value originator => preWriteEntryOr failed I p value originator
  | postWrite oldValue newValue originator =>
      observerEntryOr failed I p .postWrite fun _ entry =>
        .write oldValue newValue originator entry.originator
  | preRead originator =>
      observerEntryOr failed I p .preRead fun q entry => .read q.mValue originator entry.originator
  | postRead originator =>
      observerEntryOr failed I p .postRead fun q entry => .read q.mValue originator entry.originator

/-- The dispatch. -/
def runOr (failed : CciM D B Bool) (I : Interp D B) (c : DispatchCall D p) : CciM D B c.Result :=
  guarded I p c.kind (c.actOr failed I) c.init c.nested

theorem runOr_abort (I : Interp D B) (c : DispatchCall D p) : c.runOr Eff.abort I = c.run I := by
  have hinvoke : ∀ k entry ev h,
      invokeTypedOr Eff.abort I p k entry ev h = invokeTyped I p k entry ev h := by
    intro k entry ev h
    cases h <;> rfl
  have hact : c.actOr Eff.abort I = c.act I := by
    cases c with
    | preWrite value originator =>
      funext entry acc
      simp only [actOr, act, preWriteEntryOr, preWriteEntry, hinvoke]
      rfl
    | _ =>
      funext entry acc
      simp only [actOr, act, observerEntryOr, observerEntry, hinvoke]
      rfl
  rw [runOr, hact]
  cases c <;> rfl

/-! ### What the loops do with an entry -/

section

variable (failed : CciM D B Bool) (I : Interp D B) (c : DispatchCall D p)

theorem actOr_valid {entry : CallbackObj} (h : ValidEntry p c.kind entry) :
    c.actOr failed I entry = c.serve I entry := by
  obtain ⟨held, hheld⟩ := h
  have htyped := typedHandle_eq_recovered p c.kind entry
  rw [hheld] at htyped
  funext acc
  rw [serve, hheld]
  cases c with
  | preWrite value originator =>
    simp only [actOr, preWriteEntryOr]
    simp only [kind] at htyped
    rw [htyped]
    rfl
  | _ =>
    simp only [actOr, observerEntryOr]
    simp only [kind] at htyped
    rw [htyped]
    rfl

theorem actOr_invalid {entry : CallbackObj} (h : ¬ValidEntry p c.kind entry)
    (hkind : c.kind ≠ .preWrite) : c.actOr failed I entry = c.serve I entry := by
  have hnone : recovered p c.kind entry = none := by
    rw [Option.eq_none_iff_forall_ne_some]
    exact fun held hheld => h ⟨held, hheld⟩
  have htyped := typedHandle_eq_recovered p c.kind entry
  rw [hnone] at htyped
  funext acc
  rw [serve, hnone]
  cases c with
  | preWrite value originator => exact absurd rfl hkind
  | _ =>
    simp only [actOr, observerEntryOr]
    simp only [kind] at htyped
    rw [htyped]
    rfl

/-- Without a valid callback the pre-write loop comes to the assertion. -/
theorem preWriteEntryOr_fails {failed : CciM D B Bool} {out : Outcome Report Bool}
    (hfailed : ∀ s, (failed s).1 = out) (hout : ∀ a, out ≠ .ok a) {entry : CallbackObj}
    (h : ¬ValidEntry p .preWrite entry) (v : D.Value p) (o : CciOriginator) (acc : Bool)
    (s : World D B) : (preWriteEntryOr failed I p v o entry acc s).1 = out := by
  have hnone : typedHandle p .preWrite entry = none := by
    rw [typedHandle_eq_recovered, Option.eq_none_iff_forall_ne_some]
    exact fun held hheld => h ⟨held, hheld⟩
  simp only [preWriteEntryOr, hnone, invokeTypedOr, getParam, Eff.gets_bind_run]
  rw [Eff.bind_run]
  have hstop := hfailed s
  rcases hr : failed s with ⟨a | e | _ | _, t⟩ <;> rw [hr] at hstop
  · exact absurd hstop.symm (hout a)
  · exact hstop
  · exact hstop
  · exact hstop

end

/-! ### Dispatches -/

/-- The dispatch invokes exactly the valid entries and passes over the others, and it comes to no
failing assertion: whatever stood in its place would not be noticed. -/
structure Serves (I : Interp D B) (c : DispatchCall D p) (w : World D B) : Prop where
  valid : c.run I w = guarded I p c.kind (c.serve I) c.init c.nested w
  safe : ∀ failed, c.runOr failed I w = c.run I w

/-- The entries whose turn comes when the entries that are not valid are passed over. -/
def comesUp (I : Interp D B) (c : DispatchCall D p) (w : World D B) : List CallbackObj :=
  if (w.param p).oncall c.kind then []
  else VectorLoop.comesUp (entryAt p c.kind) (c.serve I) I.fuel 0 c.init (enterDispatch p c.kind w)

variable {I : Interp D B} {c : DispatchCall D p} {w : World D B}

theorem dispatch_fst {α : Type} (I : Interp D B) (p : D.Param) (k : CallbackKind)
    (act : CallbackObj → α → CciM D B α) (init : α) (w : World D B) :
    (dispatch I p k act init w).1 =
      (Eff.forEach (entryAt p k) act I.fuel 0 init (enterDispatch p k w)).1 := by
  simp only [dispatch, scopedTrue, Eff.modify_bind_run, Eff.finalizing]
  rcases (Eff.forEach (entryAt p k) act I.fuel 0 init : CciM D B α) (enterDispatch p k w)
    with ⟨a | e | _ | _, t⟩ <;> rfl

theorem serves_of_runOr (h : ∀ failed, c.runOr failed I w =
    guarded I p c.kind (c.serve I) c.init c.nested w) : c.Serves I w := by
  have hrun : c.run I w = guarded I p c.kind (c.serve I) c.init c.nested w := by
    rw [← c.runOr_abort I]
    exact h Eff.abort
  exact ⟨hrun, fun failed => (h failed).trans hrun.symm⟩

theorem serves_of_valid (h : ∀ entry ∈ c.comesUp I w, ValidEntry p c.kind entry) : c.Serves I w := by
  apply serves_of_runOr
  intro failed
  cases hg : (w.param p).oncall c.kind with
  | true => rw [runOr, guarded_skip hg, guarded_skip hg]
  | false =>
    rw [comesUp, hg, if_neg Bool.false_ne_true] at h
    have hagree : ∀ entry ∈ VectorLoop.comesUp (entryAt p c.kind) (c.serve I) I.fuel 0 c.init
        (enterDispatch p c.kind w), c.actOr failed I entry = c.serve I entry :=
      fun entry hentry => c.actOr_valid failed I (h entry hentry)
    have hloop := forEach_congr I.fuel 0 c.init (enterDispatch p c.kind w) hagree
    rw [runOr, guarded_open hg, guarded_open hg]
    simp only [dispatch, scopedTrue, Eff.modify_bind_run, Eff.finalizing, hloop]

theorem serves_of_kind (hkind : c.kind ≠ .preWrite) : c.Serves I w := by
  apply serves_of_runOr
  intro failed
  have hact : c.actOr failed I = c.serve I := by
    funext entry
    by_cases h : ValidEntry p c.kind entry
    · exact c.actOr_valid failed I h
    · exact c.actOr_invalid failed I h hkind
  rw [runOr, hact]

/-- A foreign callback whose turn comes in the pre-write list leads to the assertion. -/
theorem not_serves {v : D.Value p} {o : CciOriginator}
    (h : ∃ entry ∈ (preWrite v o : DispatchCall D p).comesUp I w, ¬ValidEntry p .preWrite entry) :
    ¬(preWrite v o : DispatchCall D p).Serves I w := by
  intro hserves
  have hg : (w.param p).oncall .preWrite = false := by
    cases hg : (w.param p).oncall .preWrite with
    | false => rfl
    | true =>
      obtain ⟨entry, hentry, -⟩ := h
      rw [comesUp, kind, if_pos hg] at hentry
      cases hentry
  have hends : ∀ (failed : CciM D B Bool) (out : Outcome Report Bool), (∀ s, (failed s).1 = out) →
      (∀ a, out ≠ .ok a) → ((preWrite v o : DispatchCall D p).runOr failed I w).1 = out := by
    intro failed out hfailed hout
    rw [comesUp, kind, hg, if_neg Bool.false_ne_true] at h
    show (guarded I p .preWrite (preWriteEntryOr failed I p v o) true false w).1 = out
    rw [guarded_open hg, dispatch_fst]
    refine forEach_stops
      (fun entry hentry => actOr_valid failed I (preWrite v o) (not_not.1 hentry))
      (fun entry acc s hentry => ?_) hout I.fuel 0 true (enterDispatch p .preWrite w) h
    exact preWriteEntryOr_fails I hfailed hout hentry v o acc s
  have habort := hends Eff.abort .abort (fun _ => rfl) (fun _ h => by cases h)
  have hdiverge := hends Eff.diverge .diverge (fun _ => rfl) (fun _ h => by cases h)
  rw [hserves.safe] at habort hdiverge
  cases habort.symm.trans hdiverge

/-- The invocations leave the list alone. -/
def KeepsList (I : Interp D B) (p : D.Param) (k : CallbackKind) : Prop :=
  ∀ entry ev held w, ((invokeHeld I p k entry ev held w).2.param p).vec k = (w.param p).vec k

theorem serve_keepsList (hkeeps : KeepsList I p c.kind) {entry : CallbackObj} {acc acc' : c.Result}
    {s t : World D B} (h : c.serve I entry acc s = (.ok acc', t)) :
    (t.param p).vec c.kind = (s.param p).vec c.kind := by
  have hverdict : ∀ b (u : World D B), ((c.verdict b acc u).2.param p).vec c.kind =
      (u.param p).vec c.kind := by
    intro b u
    cases c with
    | preWrite value originator =>
      cases b with
      | true => rfl
      | false =>
        simp only [verdict, Bool.false_eq_true, if_false, reportError, log]
        cases D.throws <;> rfl
    | _ => rfl
  unfold serve at h
  cases hrec : recovered p c.kind entry with
  | none =>
    rw [hrec] at h
    cases h
    rfl
  | some held =>
    rw [hrec] at h
    simp only [getParam, Eff.gets_bind_run] at h
    rw [Eff.bind_run] at h
    have hlist := hkeeps entry (c.event (s.param p) entry) held s
    rcases hr : invokeHeld I p c.kind entry (c.event (s.param p) entry) held s
      with ⟨b | e | _ | _, u⟩ <;> rw [hr] at h hlist
    · have hend : c.verdict b acc u = (.ok acc', t) := h
      have hafter := hverdict b u
      rw [hend] at hafter
      exact hafter.trans hlist
    · cases h
    · cases h
    · cases h

theorem mem_of_comesUp (hkeeps : KeepsList I p c.kind) {entry : CallbackObj}
    (h : entry ∈ c.comesUp I w) : entry ∈ (w.param p).vec c.kind := by
  rw [comesUp] at h
  split at h
  · cases h
  · refine VectorLoop.mem_of_comesUp (J := fun s => (s.param p).vec c.kind = (w.param p).vec c.kind)
      (fun s hs i => ?_) (fun _ _ s _ t hs ht => ?_) I.fuel 0 c.init ?_ h
    · rw [entryAt, hs]
    · exact (serve_keepsList hkeeps ht).trans hs
    · show ((enterDispatch p c.kind w).param p).vec c.kind = _
      rw [param_enterDispatch, CciParam.vec_setOncall]

/-- **Foreign callbacks.**  A dispatch of any but the pre-write list serves exactly the valid entries;
a dispatch of the pre-write list does so if and only if no other entry has its turn.  If the callbacks
leave the list alone, only its entries have. -/
theorem foreign_callbacks_exact (I : Interp D B) (c : DispatchCall D p) (w : World D B) :
    (c.Serves I w ↔ c.kind ≠ .preWrite ∨ ∀ entry ∈ c.comesUp I w, ValidEntry p c.kind entry) ∧
      (KeepsList I p c.kind → ∀ entry ∈ c.comesUp I w, entry ∈ (w.param p).vec c.kind) := by
  refine ⟨⟨fun hserves => ?_, ?_⟩, fun hkeeps entry => mem_of_comesUp hkeeps⟩
  · cases c with
    | preWrite v o =>
      right
      by_contra hno
      push Not at hno
      exact not_serves hno hserves
    | postWrite old new o => exact .inl fun h => by cases h
    | preRead o => exact .inl fun h => by cases h
    | postRead o => exact .inl fun h => by cases h
  · rintro (hkind | hvalid)
    · exact serves_of_kind hkind
    · exact serves_of_valid hvalid

/-- A pre-write callback without a result, registered through a handle, makes the next write fail. -/
theorem foreign_callback_asserts :
    ¬∀ (I : Interp (natDesign Unit true) (ConsumingBroker Unit ℕ)) (cb : CallbackHandle)
      (c : DispatchCall (natDesign Unit true) ())
      (w t : World (natDesign Unit true) (ConsumingBroker Unit ℕ)),
      exec I (.handleRegisterCallback () c.kind cb .unknown) w = (.ok .unit, t) → c.Serves I t := by
  intro h
  have hserves := h (interp (fun _ _ => .ret true) 1) (some (.impl ⟨1, ⟨.writeEvent none, .void⟩⟩))
    (preWrite (5 : ℕ) .unknown) (natWorld true (fun _ => "top.p") (fun _ => 0) .unknown {}) _ rfl
  have hsame := (hserves.safe (pure true)).trans (hserves.safe Eff.abort).symm
  cases congrArg Prod.fst hsame

end DispatchCall

end Cci
