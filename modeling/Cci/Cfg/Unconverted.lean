import Cci.Cfg.Reset
import Cci.Cfg.WriteOutcome

/-!
# Values that do not convert

`set_cci_value` and the preset of a `reset` convert a `cci_value` first.  If the converter refuses,
`get<T>()` reports an error; where such reports do not throw it returns what the converter has left in
its destination, and the write goes on with that.

* `Recalls` — what the trace has recorded stays recorded;
* `Deaf` — no callback of the post-write list will be told of a write;
* `commit_same_iff` — a commit that shows;
* `Unnoticed` — the write of a value that leaves the parameter as it was;
* `unconverted_exact` — when a value that does not convert is not stored.
-/

namespace Cci

open Effect CciParamTyped

variable {D : Design} {B : Type}

/-! ### What has been recorded -/

/-- `m` keeps the condition `P` on the trace. -/
abbrev Recalls {α : Type} (P : List (TraceEvent D B) → Prop) (m : CciM D B α) : Prop :=
  Keeps (fun w : World D B => P w.trace) m

section

variable {P : List (TraceEvent D B) → Prop} (hP : ∀ es e, P es → P (es ++ [e]))

theorem modifyParam_recalls (p : D.Param) (f : CciParam (D.Value p) → CciParam (D.Value p)) :
    Recalls P (modifyParam p f : CciM D B Unit) :=
  Keeps.modify fun _ hw => hw

include hP

theorem recalls_log (e : TraceEvent D B) : Recalls P (log e) :=
  Keeps.modify fun w hw => hP w.trace e hw

theorem recalls_reports : Reports fun α (m _ : CciM D B α) => Recalls P m where
  toPlumbing := Keeps.plumbing _
  report r := recalls_log hP (.report r)

theorem recalls_closed {I : Interp D B} (hcall : ∀ f ev, Recalls P (I.call f ev)) :
    Closed I I (fun _ _ => True) (fun _ m _ => Recalls P m) (fun _ m _ => Recalls P m) where
  outer := recalls_reports hP
  inner := recalls_reports hP
  call := hcall
  invoked p k _ entry ev := recalls_log hP (.invoked p k entry ev)
  guarded r k init skip _ hact := by
    refine Keeps.bind (Keeps.gets _) fun _ => Keeps.ite (Keeps.pure skip) ?_
    refine Keeps.bind (Keeps.modify fun w hw => ?_) fun _ =>
      Keeps.finalizing (fun _ hw => hw) (Keeps.forEach hact _ _ init)
    exact hP w.trace (.dispatch r k w.stack) hw
  fastRead r := modifyParam_recalls r _

variable [CciBrokerIf B D.BrokerHandle D.CciValue]

theorem recalls_administers : Administers fun α (m _ : CciM D B α) => Recalls P m where
  lock p _ := modifyParam_recalls p _
  unlock p _ := modifyParam_recalls p _
  setPreset := (recalls_reports hP).setPreset fun _ => Keeps.modify fun _ hw => hw

omit [CciBrokerIf B D.BrokerHandle D.CciValue] hP in
theorem recalls_registers : Registers fun α (m _ : CciM D B α) => Recalls P m where
  register p _ _ _ := modifyParam_recalls p _
  registerOwn p _ _ := modifyParam_recalls p _
  unregister p _ _ _ := modifyParam_recalls p _
  unregisterAll p _ := modifyParam_recalls p _

theorem exec_recalls {I : Interp D B} (hcall : ∀ f ev, Recalls P (I.call f ev)) (c : Cmd D) :
    Recalls P (exec I c) := by
  have hstores : ∀ p, Stores (fun α (m _ : CciM D B α) => Recalls P m) p := fun p =>
    ⟨fun _ => modifyParam_recalls p _, fun _ => modifyParam_recalls p _,
      fun _ => modifyParam_recalls p _⟩
  have hrun : Recalls P (c.run I) := (recalls_closed hP hcall).run_all (fun _ => ⟨trivial, trivial⟩)
    c (fun p _ => ⟨hstores p, trivial, trivial⟩) (recalls_administers hP) recalls_registers
  exact Keeps.bind (Keeps.modify fun w hw => hP w.trace _ hw) fun _ =>
    Keeps.finalizing (fun w hw => hP w.trace _ hw) hrun

/-- Callback bodies do not undo what has been recorded. -/
theorem interp_recalls (Γ : CallbackImpl → Payload D → Prog D) (n : ℕ) (f : CallbackImpl)
    (ev : Payload D) : Recalls P ((interp Γ n : Interp D B).call f ev) := by
  induction n generalizing f ev with
  | zero => exact Keeps.diverge
  | succ n ih =>
    exact (recalls_reports hP).runProg (interp Γ n) (interp Γ n) (fun _ => True)
      (fun c _ => exec_recalls hP ih c) (Γ f ev).all_true

end

/-! ### Who is told of a write -/

/-- The post-write callbacks of `p` were told more than `n` events. -/
def ToldMore (p : D.Param) (n : ℕ) (es : List (TraceEvent D B)) : Prop :=
  n < (es.filterMap (TraceEvent.postWrite? p)).length

theorem ToldMore.append {p : D.Param} {n : ℕ} (es : List (TraceEvent D B)) (e : TraceEvent D B)
    (h : ToldMore p n es) : ToldMore p n (es ++ [e]) := by
  rw [ToldMore, List.filterMap_append, List.length_append]
  exact Nat.lt_add_right _ h

/-- No callback of the post-write list is told of a write: the list is under dispatch, or none of the
entries that the dispatch gets to is valid for the type of the parameter. -/
def Deaf (p : D.Param) (q : CciParam (D.Value p)) (fuel : ℕ) : Prop :=
  q.oncall .postWrite = true ∨
    ∀ entry ∈ (q.vec .postWrite).take fuel, typedHandle p .postWrite entry = none

/-- With suppressed reports the untyped form of an event can always be had. -/
theorem untypedEvent_ok (hthrows : D.throws = false) (p : D.Param) (ev : ParamEvent (D.Value p)) :
    ∃ c, untypedEvent p ev = .ok c := by
  have hcci : ∀ v, cciOf p v = .ok (D.pack p v).2 := fun v => if_pos (.inr hthrows)
  cases ev with
  | write oldValue newValue originator paramHandle =>
    exact ⟨_, by rw [untypedEvent, hcci, hcci]; rfl⟩
  | read value originator paramHandle => exact ⟨_, by rw [untypedEvent, hcci]; rfl⟩

section

variable [CciBrokerIf B D.BrokerHandle D.CciValue]
variable (Γ : CallbackImpl → Payload D → Prog D) (n : ℕ) {p : D.Param}

/-- A valid entry is told. -/
theorem observerEntry_told (hthrows : D.throws = false) {entry : CallbackObj}
    (hvalid : (typedHandle p .postWrite entry).isSome = true)
    (mkEvent : CciParam (D.Value p) → CallbackObj → ParamEvent (D.Value p)) (w : World D B) :
    ToldMore p (w.postWrites p).length
      (observerEntry (interp Γ n) p .postWrite mkEvent entry () w).2.trace := by
  obtain ⟨held, hh⟩ := Option.isSome_iff_exists.1 hvalid
  have hcall : ∀ g payload (t : World D B), t.postWrites p = w.postWrites p →
      ToldMore p (w.postWrites p).length
        ((log (.invoked p .postWrite entry (mkEvent (w.param p) entry)) >>= fun _ =>
          (interp Γ n : Interp D B).call g payload) t).2.trace := by
    intro g payload t ht
    refine interp_recalls ToldMore.append Γ n g payload
      (t.record (.invoked p .postWrite entry (mkEvent (w.param p) entry))) ?_
    show _ < ((t.record _).postWrites p).length
    rw [World.postWrites_record, TraceEvent.postWrite?, dif_pos rfl, ht]
    simp
  have hinvoke : ToldMore p (w.postWrites p).length
      (invokeHeld (interp Γ n) p .postWrite entry (mkEvent (w.param p) entry) held w).2.trace := by
    cases held with
    | impl g => exact hcall g _ w rfl
    | adapt g sig =>
      obtain ⟨c, hc⟩ := untypedEvent_ok hthrows p (mkEvent (w.param p) entry)
      obtain ⟨t, ht, -, hpost⟩ := genericWrap_run p (mkEvent (w.param p) entry) w
      rw [hc] at ht
      rw [invokeHeld, Eff.bind_run_ok ht]
      exact hcall g _ t hpost
  have hrun : observerEntry (interp Γ n) p .postWrite mkEvent entry () w =
      (invokeHeld (interp Γ n) p .postWrite entry (mkEvent (w.param p) entry) held >>= fun _ =>
        pure ()) w := by
    unfold observerEntry
    rw [hh]
    rfl
  rw [hrun, Eff.bind_run]
  rcases hr : invokeHeld (interp Γ n) p .postWrite entry (mkEvent (w.param p) entry) held w with
    ⟨_ | _ | _ | _, t⟩ <;> rw [hr] at hinvoke <;> exact hinvoke

/-- The loop over the post-write list does nothing, or tells one of the entries it gets to. -/
theorem forEach_postWrite (hthrows : D.throws = false)
    (mkEvent : CciParam (D.Value p) → CallbackObj → ParamEvent (D.Value p)) (fuel i : ℕ)
    (w : World D B) :
    let t := (Eff.forEach (entryAt p .postWrite) (observerEntry (interp Γ n) p .postWrite mkEvent)
      fuel i () w).2
    (t = w ∧ ∀ entry ∈ (((w.param p).vec .postWrite).drop i).take fuel,
        typedHandle p .postWrite entry = none) ∨
      (ToldMore p (w.postWrites p).length t.trace ∧
        ∃ entry ∈ (((w.param p).vec .postWrite).drop i).take fuel,
          typedHandle p .postWrite entry ≠ none) := by
  induction fuel generalizing i with
  | zero =>
    refine .inl ⟨?_, by simp⟩
    simp only [Eff.forEach]
    cases entryAt p .postWrite w i <;> rfl
  | succ fuel ih =>
    cases hi : ((w.param p).vec .postWrite)[i]? with
    | none =>
      have hdrop : ((w.param p).vec .postWrite).drop i = [] :=
        List.drop_eq_nil_of_le (List.getElem?_eq_none_iff.1 hi)
      refine .inl ⟨?_, by simp [hdrop]⟩
      simp only [Eff.forEach, entryAt, hi]
    | some entry =>
      have hdrop : ((w.param p).vec .postWrite).drop i =
          entry :: ((w.param p).vec .postWrite).drop (i + 1) := by
        obtain ⟨hlt, rfl⟩ := List.getElem?_eq_some_iff.1 hi
        exact List.drop_eq_getElem_cons hlt
      have hstep : Eff.forEach (entryAt p .postWrite) (observerEntry (interp Γ n) p .postWrite
          mkEvent) (fuel + 1) i () w = (observerEntry (interp Γ n) p .postWrite mkEvent entry () >>=
            Eff.forEach (entryAt p .postWrite) (observerEntry (interp Γ n) p .postWrite mkEvent)
              fuel (i + 1)) w := by
        simp only [Eff.forEach, entryAt, hi]
      rw [hstep, hdrop, List.take_succ_cons]
      cases hh : typedHandle p .postWrite entry with
      | none =>
        have hskip : observerEntry (interp Γ n) p .postWrite mkEvent entry () w = (.ok (), w) := by
          unfold observerEntry
          rw [hh]
          rfl
        rw [Eff.bind_run_ok hskip]
        rcases ih (i + 1) with ⟨ht, hnone⟩ | ⟨htold, e, he, hvalid⟩
        · exact .inl ⟨ht, List.forall_mem_cons.2 ⟨hh, hnone⟩⟩
        · exact .inr ⟨htold, e, List.mem_cons_of_mem _ he, hvalid⟩
      | some held =>
        have htold := observerEntry_told Γ n hthrows (by rw [hh]; rfl) mkEvent w
        have hloop : ∀ t : World D B, ToldMore p (w.postWrites p).length t.trace →
            ToldMore p (w.postWrites p).length (Eff.forEach (entryAt p .postWrite)
              (observerEntry (interp Γ n) p .postWrite mkEvent) fuel (i + 1) () t).2.trace :=
          Keeps.forEach (fun e a => (recalls_closed ToldMore.append
            (interp_recalls ToldMore.append Γ n)).observerEntry trivial mkEvent e a) _ _ _
        refine .inr ⟨?_, entry, List.mem_cons_self, by rw [hh]; simp⟩
        rw [Eff.bind_run]
        rcases hr : observerEntry (interp Γ n) p .postWrite mkEvent entry () w with
          ⟨_ | _ | _ | _, t⟩ <;> rw [hr] at htold
        · exact hloop t htold
        · exact htold
        · exact htold
        · exact htold

omit [CciBrokerIf B D.BrokerHandle D.CciValue] in
theorem postWrites_length_lt {w t : World D B} (h : ToldMore p (w.postWrites p).length t.trace) :
    t.postWrites p ≠ w.postWrites p := fun heq =>
  absurd (congrArg List.length heq) (Nat.ne_of_gt h)

/-- A post-write dispatch that nobody hears does nothing to the parameter. -/
theorem postWriteCallback_deaf (hthrows : D.throws = false) (oldValue v : D.Value p)
    (o : CciOriginator) {w : World D B}
    (h : Deaf p (w.param p) (interp Γ n : Interp D B).fuel) :
    Same p CciParam.shown w (postWriteCallback (interp Γ n) p oldValue v o w).2 := by
  rw [postWriteCallback, observe_eq_guarded]
  cases hg : (w.param p).oncall .postWrite with
  | true =>
    rw [guarded_skip hg]
    exact ⟨rfl, rfl⟩
  | false =>
    have hnone := h.resolve_left (by rw [hg]; exact Bool.false_ne_true)
    have hloop := forEach_postWrite Γ n hthrows (fun _ entry => .write oldValue v o entry.originator)
      (interp Γ n : Interp D B).fuel 0 (enterDispatch p .postWrite w)
    rw [param_enterDispatch, CciParam.vec_setOncall, List.drop_zero] at hloop
    rcases hloop with ⟨ht, -⟩ | ⟨-, entry, he, hvalid⟩
    · rw [guarded_open hg]
      simp only [dispatch, scopedTrue, Eff.modify_bind_run, Eff.finalizing]
      have henter : Same p CciParam.shown w (enterDispatch p .postWrite w) := by
        refine ⟨?_, postWrites_enterDispatch p .postWrite w⟩
        rw [param_enterDispatch]
        rfl
      rcases hr : Eff.forEach (entryAt p .postWrite) (observerEntry (interp Γ n) p .postWrite
        fun _ entry => .write oldValue v o entry.originator) (interp Γ n : Interp D B).fuel 0 ()
        (enterDispatch p .postWrite w) with ⟨_ | _ | _ | _, t⟩ <;> rw [hr] at ht <;> cases ht
      · refine ⟨?_, henter.postWrites⟩
        rw [param_leaveDispatch]
        exact henter.param
      · refine ⟨?_, henter.postWrites⟩
        rw [param_leaveDispatch]
        exact henter.param
      · exact henter
      · exact henter
    · exact absurd (hnone entry he) hvalid

/-- Otherwise a callback is told of the write. -/
theorem postWriteCallback_told (hthrows : D.throws = false) (oldValue v : D.Value p)
    (o : CciOriginator) {w : World D B}
    (h : ¬Deaf p (w.param p) (interp Γ n : Interp D B).fuel) :
    (postWriteCallback (interp Γ n) p oldValue v o w).2.postWrites p ≠ w.postWrites p := by
  obtain ⟨hg, hsome⟩ := not_or.1 h
  have hg' : (w.param p).oncall .postWrite = false := Bool.eq_false_iff.2 hg
  have hloop := forEach_postWrite Γ n hthrows (fun _ entry => .write oldValue v o entry.originator)
    (interp Γ n : Interp D B).fuel 0 (enterDispatch p .postWrite w)
  rw [param_enterDispatch, CciParam.vec_setOncall, List.drop_zero] at hloop
  rcases hloop with ⟨-, hnone⟩ | ⟨htold, -⟩
  · exact absurd hnone hsome
  · rw [postWrites_enterDispatch] at htold
    rw [postWriteCallback, observe_eq_guarded, guarded_open hg']
    simp only [dispatch, scopedTrue, Eff.modify_bind_run, Eff.finalizing]
    rcases hr : Eff.forEach (entryAt p .postWrite) (observerEntry (interp Γ n) p .postWrite
      fun _ entry => .write oldValue v o entry.originator) (interp Γ n : Interp D B).fuel 0 ()
      (enterDispatch p .postWrite w) with ⟨_ | _ | _ | _, t⟩ <;> rw [hr] at htold
    · exact postWrites_length_lt (t := leaveDispatch p .postWrite t) htold
    · exact postWrites_length_lt (t := leaveDispatch p .postWrite t) htold
    · exact postWrites_length_lt htold
    · exact postWrites_length_lt htold

/-! ### A write that leaves no mark -/

/-- A commit goes unnoticed if it writes what is there and nobody hears of it. -/
theorem commit_same_iff (hthrows : D.throws = false) (oldValue v : D.Value p) (o : CciOriginator)
    {w s : World D B} (hs : Same p CciParam.shown w s) :
    Same p CciParam.shown w (commit (interp Γ n) p v o oldValue s).2 ↔
      (w.param p).shown = (v, o) ∧ Deaf p (s.param p) (interp Γ n : Interp D B).fuel := by
  let s' := s.setParam p (stored v o (s.param p))
  have hparam : s'.param p = stored v o (s.param p) := s.param_setParam p _
  have hshown : (s'.param p).shown = (v, o) := by
    rw [hparam]
    rfl
  have hdeaf : Deaf p (s'.param p) (interp Γ n : Interp D B).fuel ↔
      Deaf p (s.param p) (interp Γ n : Interp D B).fuel := by
    rw [hparam]
    exact Iff.rfl
  rw [commit_run]
  by_cases h : Deaf p (s'.param p) (interp Γ n : Interp D B).fuel
  · have hend := postWriteCallback_deaf Γ n hthrows oldValue v o h
    constructor
    · intro ht
      exact ⟨(ht.param.symm.trans hend.param).trans hshown, hdeaf.1 h⟩
    · rintro ⟨hw, -⟩
      exact ⟨hend.param.trans (hshown.trans hw.symm), hend.postWrites.trans hs.postWrites⟩
  · constructor
    · intro ht
      exact absurd (ht.postWrites.trans hs.postWrites.symm)
        (postWriteCallback_told Γ n hthrows oldValue v o h)
    · rintro ⟨-, hd⟩
      exact absurd (hdeaf.2 hd) h

end

/-- A write of `v` with originator `o` that its gates have let pass leaves no mark: a pre-write
callback or the guard stops it, or the parameter shows `v` and `o` already and nobody hears of the
write. -/
def Unnoticed (I : Interp D B) (p : D.Param) (v : D.Value p) (o : CciOriginator) (w : World D B) :
    Prop :=
  (preWriteCallback I p v o w).1 ≠ .ok true ∨
    ((w.param p).shown = (v, o) ∧ Deaf p ((preWriteCallback I p v o w).2.param p) I.fuel)

section

variable [CciBrokerIf B D.BrokerHandle D.CciValue]
variable (Γ : CallbackImpl → Payload D → Prog D) (n : ℕ) {p : D.Param} {w : World D B}

theorem unnoticed_of_stopped {v : D.Value p} {o : CciOriginator} {out : Outcome Report Bool}
    {s : World D B} (hpre : preWriteCallback (interp Γ n) p v o w = (out, s))
    (hout : out ≠ .ok true) : Unnoticed (interp Γ n) p v o w := by
  refine .inl ?_
  rw [hpre]
  exact hout

theorem unnoticed_of_passed {v : D.Value p} {o : CciOriginator} {s : World D B}
    (hpre : preWriteCallback (interp Γ n) p v o w = (.ok true, s)) :
    Unnoticed (interp Γ n) p v o w ↔
      (w.param p).shown = (v, o) ∧ Deaf p (s.param p) (interp Γ n : Interp D B).fuel := by
  rw [Unnoticed, hpre]
  simp

variable (hthrows : D.throws = false) (hs : FastFlagsSound p (w.param p))

include hthrows hs

theorem applyValue_same_iff (v : D.Value p) (o : CciOriginator)
    (old : CciParam (D.Value p) → D.Value p) :
    Same p CciParam.shown w (applyValue (interp Γ n) p v o old w).2 ↔
      Unnoticed (interp Γ n) p v o w := by
  have hsame := preWriteCallback_same Γ n hs v o
  rcases hpre : preWriteCallback (interp Γ n) p v o w with ⟨out, s⟩
  rw [hpre] at hsame
  by_cases hout : out = .ok true
  · subst hout
    rw [unnoticed_of_passed Γ n hpre, ← commit_same_iff Γ n hthrows (old (s.param p)) v o hsame,
      applyValue_passed hpre, Eff.bind_run]
    rcases commit (interp Γ n) p v o (old (s.param p)) s with ⟨_ | _ | _ | _, t⟩ <;> rfl
  · rw [applyValue_stopped hpre hout]
    exact iff_of_true hsame (unnoticed_of_stopped Γ n hpre hout)

theorem rawWrite_same_iff (v : D.Value p) (o : CciOriginator) :
    Same p CciParam.shown w (rawWrite (interp Γ n) p v o w).2 ↔ Unnoticed (interp Γ n) p v o w := by
  have hsame := preWriteCallback_same Γ n hs v o
  rcases hpre : preWriteCallback (interp Γ n) p v o w with ⟨out, s⟩
  rw [hpre] at hsame
  by_cases hout : out = .ok true
  · subst hout
    rw [unnoticed_of_passed Γ n hpre, ← commit_same_iff Γ n hthrows (s.param p).mValue v o hsame,
      rawWrite_passed hpre, finishWrite, Eff.bind_run]
    rcases commit (interp Γ n) p v o (s.param p).mValue s with ⟨_ | _ | _ | _, t⟩
    · -- the recomputation of `fast_write` does not show
      have hlast : Same p CciParam.shown t (t.setParam p
          { t.param p with fastWrite := fastWriteAllowed p o (t.param p) }) := by
        refine ⟨?_, rfl⟩
        rw [World.param_setParam]
        rfl
      exact ⟨fun h => ⟨hlast.param.symm.trans h.param, h.postWrites⟩,
        fun h => ⟨hlast.param.trans h.param, h.postWrites⟩⟩
    · rfl
    · rfl
    · rfl
  · rw [rawWrite_stopped hpre hout]
    exact iff_of_true hsame (unnoticed_of_stopped Γ n hpre hout)

end

/-! ### Conversions that fail -/

theorem Same.left_iff {α : Type} {p : D.Param} {f : CciParam (D.Value p) → α} {w t u : World D B}
    (h : Same p f w t) : Same p f w u ↔ Same p f t u :=
  ⟨fun hu => ⟨hu.param.trans h.param.symm, hu.postWrites.trans h.postWrites.symm⟩,
    (same_composable p f).trans h⟩

theorem Same.mValueOrigin_eq {p : D.Param} {w t : World D B} (h : Same p CciParam.shown w t) :
    (t.param p).mValueOrigin = (w.param p).mValueOrigin := congrArg Prod.snd h.param

theorem cciValueGet_same (p : D.Param) (c : D.CciValue) (w : World D B) :
    Same p CciParam.shown w (cciValueGet p c w).2 := by
  refine ((same_reports p CciParam.shown).cciValueGet p c w).2 ?_
  rw [cciValueGet_run]
  split
  · rfl
  · cases D.throws <;> rfl

section

variable [CciBrokerIf B D.BrokerHandle D.CciValue]
variable (Γ : CallbackImpl → Payload D → Prog D) (n : ℕ) {p : D.Param} {w : World D B}
variable (hs : FastFlagsSound p (w.param p))

include hs

theorem setCciValue_same_iff {x : D.CciValue} (hx : (D.unpack p (D.uninit p) x).1 = false)
    (pwd : Option ℕ) (o : CciOriginator) :
    Same p CciParam.shown w (setCciValue (interp Γ n) p x pwd o w).2 ↔
      D.throws = true ∨ (writeRefusal p pwd (w.param p)).isSome = true ∨
        Unnoticed (interp Γ n) p (D.unpack p (D.uninit p) x).2 o (cciValueGet p x w).2 := by
  have hget := cciValueGet_same p x w
  cases hthrows : D.throws with
  | true =>
    obtain ⟨e, t, ht, -⟩ := cciValueGet_fails (c := x) (p := p)
      (by rw [Converts, hx, hthrows]; simp) w
    rw [setCciValue, Eff.bind_run_throw ht]
    rw [ht] at hget
    exact iff_of_true hget (.inl rfl)
  | false =>
    obtain ⟨t, ht, hstore⟩ := cciValueGet_of_converts (c := x) (p := p) (.inr hthrows) w
    have hparam : t.param p = w.param p := congrArg (fun s : Store D B => s.params p) hstore
    rw [ht] at hget
    rw [setCciValue, Eff.bind_run_ok ht, hget.left_iff, setRawValue_eq, hparam, ht]
    cases writeRefusal p pwd (w.param p) with
    | some r =>
      refine iff_of_true ?_ (.inr (.inl rfl))
      refine ((same_reports p CciParam.shown).refuse r t).2 ?_
      rw [refuse_run]
      cases D.throws <;> rfl
    | none =>
      simp only [Option.isSome_none, Bool.false_eq_true, false_or]
      exact rawWrite_same_iff Γ n hthrows (by rw [hparam]; exact hs) _ o

theorem reset_same_iff (hp : w.hasPreset p = true)
    (hx : (D.unpack p (D.uninit p) (w.preset p)).1 = false) :
    Same p CciParam.shown w (reset (interp Γ n) p w).2 ↔
      D.throws = true ∨ CciParamUntyped.isLocked (w.param p) = true ∨
        Unnoticed (interp Γ n) p (D.unpack p (D.uninit p) (w.preset p)).2 (w.initialOrigin p)
          (cciValueGet p (w.preset p) w).2 := by
  have hget := cciValueGet_same p (w.preset p) w
  have horigin : CciBrokerIf.getPresetValueOrigin w.store.broker (w.store.mBrokerHandle p)
      (w.param p).mName = w.initialOrigin p := by
    rw [World.initialOrigin, if_pos hp]
  by_cases hl : CciParamUntyped.isLocked (w.param p) = true
  · have hrun : reset (interp Γ n) p w = (.ok false, w) := (reset_eq _ p w).trans (if_pos hl)
    rw [hrun]
    exact iff_of_true ((same_composable p _).refl w) (.inr (.inl hl))
  · have hrun : reset (interp Γ n) p w =
        (presetCciValue (interp Γ n) p (w.preset p) (w.initialOrigin p) >>= fun _ => pure true) w := by
      rw [← horigin]
      exact (reset_eq _ p w).trans ((if_neg hl).trans (if_pos hp))
    have hlast : (reset (interp Γ n) p w).2 =
        (presetCciValue (interp Γ n) p (w.preset p) (w.initialOrigin p) w).2 := by
      rw [hrun, Eff.bind_run]
      rcases presetCciValue (interp Γ n) p (w.preset p) (w.initialOrigin p) w with
        ⟨_ | _ | _ | _, t⟩ <;> rfl
    rw [hlast, presetCciValue_eq]
    cases hthrows : D.throws with
    | true =>
      obtain ⟨e, t, ht, -⟩ := cciValueGet_fails (c := w.preset p) (p := p)
        (by rw [Converts, hx, hthrows]; simp) w
      rw [Eff.bind_run_throw ht]
      rw [ht] at hget
      exact iff_of_true hget (.inl rfl)
    | false =>
      obtain ⟨t, ht, hstore⟩ := cciValueGet_of_converts (c := w.preset p) (p := p) (.inr hthrows) w
      have hparam : t.param p = w.param p := congrArg (fun s : Store D B => s.params p) hstore
      rw [ht] at hget
      rw [Eff.bind_run_ok ht, hget.left_iff, ht]
      simp only [Bool.false_eq_true, hl, false_or]
      exact applyValue_same_iff Γ n hthrows (by rw [hparam]; exact hs) _ _ _

end

/-- **A value that does not convert is never stored, if error reports throw.**  In every store that
client code can look at: `set_cci_value` with a value that the converter refuses, and a reset to a
preset that it refuses, leave the value and its origin alone and tell no post-write callback, exactly
when the report of the failed conversion throws, or a gate refuses the write, or writing what the
converter has left in its destination leaves no mark. -/
theorem unconverted_exact [CciBrokerIf B D.BrokerHandle D.CciValue]
    (Γ : CallbackImpl → Payload D → Prog D) (n : ℕ) {w₀ w : World D B} (h₀ : w₀.Initial)
    {cs : List (Cmd D)} (hrun : Calls (interp Γ n) w₀ cs w) (c : Cmd D) {u : World D B}
    (hu : u.store ∈ (exec (interp Γ n) c w).2.visible) (m : ℕ) (p : D.Param) :
    (∀ x pwd o, (D.unpack p (D.uninit p) x).1 = false →
      (Same p CciParam.shown u (setCciValue (interp Γ m) p x pwd o u).2 ↔
        D.throws = true ∨ (writeRefusal p pwd (u.param p)).isSome = true ∨
          Unnoticed (interp Γ m) p (D.unpack p (D.uninit p) x).2 o (cciValueGet p x u).2)) ∧
    (u.hasPreset p = true → (D.unpack p (D.uninit p) (u.preset p)).1 = false →
      (Same p CciParam.shown u (reset (interp Γ m) p u).2 ↔
        D.throws = true ∨ CciParamUntyped.isLocked (u.param p) = true ∨
          Unnoticed (interp Γ m) p (D.unpack p (D.uninit p) (u.preset p)).2 (u.initialOrigin p)
            (cciValueGet p (u.preset p) u).2)) := by
  have hs : FastFlagsSound p (u.param p) := fastFlags_invariant Γ n c w (fastFlags_calls h₀ hrun) _ hu p
  exact ⟨fun x pwd o hx => setCciValue_same_iff Γ m hs hx pwd o,
    fun hp hx => reset_same_iff Γ m hs hp hx⟩

/-- A design of one parameter that holds bytes; a variable starts with the byte 9 in it. -/
def byteDesign (throws : Bool) : Design :=
  { natDesign Unit throws with
    uninit := fun _ => (9 : ℕ)
    unpack := fun _ (d : ℕ) (c : ℕ) => if c < 256 then (true, c) else (false, d) }

instance (throws : Bool) : Inhabited (byteDesign throws).CciValue := ⟨(0 : ℕ)⟩

/-- The parameter as constructed, with the value 0. -/
def byteWorld (throws : Bool) : World (byteDesign throws) (ConsumingBroker Unit ℕ) :=
  let w := natWorld throws (fun _ : Unit => "top.p") (fun _ => 1) (.named "owner")
    ({} : ConsumingBroker Unit ℕ)
  { store := { params := w.store.params, mBrokerHandle := fun _ => (), broker := {} } }

/-- With throwing reports the value 300 is not stored in a byte. -/
theorem unconverted_exact_throwing :
    let I : Interp (byteDesign true) (ConsumingBroker Unit ℕ) := interp (fun _ _ => .ret true) 1
    Same () CciParam.shown (byteWorld true)
      (setCciValue I () (300 : ℕ) none (.named "tool") (byteWorld true)).2 := by
  intro I
  have h₀ : (byteWorld true).Initial := ⟨fun _ => ⟨rfl, fun _ => rfl, rfl, rfl⟩, rfl, rfl⟩
  have hu : (byteWorld true).store ∈ (exec I (.isLocked ()) (byteWorld true)).2.visible :=
    List.mem_append_left _ (List.mem_filterMap.2 ⟨.step (.isLocked ()) (byteWorld true).store,
      List.mem_append_left _ (List.mem_append_right _ (List.mem_singleton_self _)), rfl⟩)
  have hx : ((byteDesign true).unpack () ((byteDesign true).uninit ()) (300 : ℕ)).1 = false := by
    decide
  have hall := unconverted_exact (fun _ _ => .ret true) 1 h₀ (.nil _) (.isLocked ()) hu 1 ()
  exact (hall.1 _ none _ hx).2 (.inl rfl)

/-- With suppressed reports a write of 300 stores whatever the variable held before. -/
theorem unconverted_stored :
    let I : Interp (byteDesign false) (ConsumingBroker Unit ℕ) := interp (fun _ _ => .ret true) 1
    let t := (setCciValue I () (300 : ℕ) none (.named "tool") (byteWorld false)).2
    let value : ℕ := (t.param ()).mValue
    value = 9 ∧ (t.param ()).mValueOrigin = .named "tool" ∧
      ¬Same () CciParam.shown (byteWorld false) t := by
  intro I t value
  have horigin : (t.param ()).mValueOrigin = .named "tool" := by decide +kernel
  refine ⟨Nat.eq_of_beq_eq_true (by decide +kernel), horigin, fun h => ?_⟩
  have howner : ((byteWorld false).param ()).mValueOrigin = .named "owner" := rfl
  have hkept := h.mValueOrigin_eq
  rw [horigin, howner] at hkept
  exact absurd hkept (by decide)

end Cci
