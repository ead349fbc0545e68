import Cci.Lib.Exceptions
import Cci.Cfg.Operations
import Cci.Utils.ConsumingBroker

/-!
# Error reports and their handling

Every failure of the interface is an `sc_report` whose message type names its category, and client
code handles a failure by decoding the report it caught.

* `decodeParamFailure`, `cciHandleException` — the decoding, and the rethrow of what is not expected;
* `decode_report` — what is reported under a message type decodes to the category of the type;
* `Raises`, `Prog.Throws` — the reports that may leave a computation, or a callback body;
* `Cmd.failures`, `exec_raises` — the categories of the reports a command raises by itself;
* `handling_exact` — what a handler around a command catches, and what it lets through.
-/

namespace Cci

open Effect CciParamTyped

variable {D : Design} {B : Type}

/-! ### Decoding -/

/-- `cci_param_failure`. -/
inductive CciParamFailure where
  | notFailure | setParamFailure | getParamFailure | addParamFailure | removeParamFailure
  | valueFailure | undefinedFailure
deriving DecidableEq, Repr

/-- `CCI_ANY_FAILURE`, which has the value of `CCI_UNDEFINED_FAILURE`. -/
def CciParamFailure.anyFailure : CciParamFailure := .undefinedFailure

/-- `cci_msg_types`, without the entry at its end. -/
def cciMsgTypes : List (String × CciParamFailure) :=
  [("SET_PARAM_FAILED", .setParamFailure), ("GET_PARAM_FAILED", .getParamFailure),
    ("ADD_PARAM_FAILED", .addParamFailure), ("REMOVE_PARAM_FAILED", .removeParamFailure),
    ("CCI_VALUE_FAILURE", .valueFailure)]

/-- The loop over `cci_msg_types`; the entry at its end is `CCI_UNDEFINED_FAILURE`. -/
def failureOfType (msgType : List Char) : CciParamFailure :=
  match cciMsgTypes.find? fun t => t.1.toList == msgType with
  | some t => t.2
  | none => .undefinedFailure

/-- `decode_param_failure`. -/
def decodeParamFailure (rpt : Report) : CciParamFailure :=
  match reportMsgTypePrefix.toList.isPrefixOf? rpt.msgType.toList with
  | some msgType => failureOfType msgType
  | none => .notFailure

/-- `cci_handle_exception` with the report that is the current exception: the error code, or the
report thrown again. -/
def cciHandleException (expect : CciParamFailure) (rpt : Report) : Except Report CciParamFailure :=
  let err := decodeParamFailure rpt
  if err = .notFailure then .error rpt
  else if err ≠ expect ∧ expect ≠ .anyFailure then .error rpt
  else .ok err

theorem isPrefixOf?_append (l l' : List Char) : l.isPrefixOf? (l ++ l') = some l' := by
  induction l with
  | nil => rfl
  | cons a l ih =>
    show (if (a == a) = true then l.isPrefixOf? (l ++ l') else none) = some l'
    rw [if_pos (beq_self_eq_true a), ih]

/-- What is reported under a message type decodes to the category of the type. -/
theorem decode_report (msgType msg : String) :
    decodeParamFailure (cciReport msgType msg) = failureOfType msgType.toList := by
  have hsplit : (cciReport msgType msg).msgType.toList =
      reportMsgTypePrefix.toList ++ msgType.toList := String.toList_append
  unfold decodeParamFailure
  rw [hsplit, isPrefixOf?_append]

/-- Every entry of the table is found under its own type. -/
theorem failureOfType_mem : ∀ t ∈ cciMsgTypes, failureOfType t.1.toList = t.2 := by
  decide +kernel

theorem decode_setParamFailed (msg : String) :
    decodeParamFailure (setParamFailed msg) = .setParamFailure := by
  unfold setParamFailed
  rw [decode_report]
  exact failureOfType_mem ("SET_PARAM_FAILED", .setParamFailure) (by simp [cciMsgTypes])

theorem decode_cciValueFailure (msg : String) :
    decodeParamFailure (cciValueFailure msg) = .valueFailure := by
  unfold cciValueFailure
  rw [decode_report]
  exact failureOfType_mem ("CCI_VALUE_FAILURE", .valueFailure) (by simp [cciMsgTypes])

/-- What the handler lets through. -/
theorem cciHandleException_error {expect : CciParamFailure} {rpt rpt' : Report} :
    cciHandleException expect rpt = .error rpt' ↔ rpt' = rpt ∧ (decodeParamFailure rpt = .notFailure ∨
      decodeParamFailure rpt ≠ expect ∧ expect ≠ .anyFailure) := by
  unfold cciHandleException
  by_cases hnot : decodeParamFailure rpt = .notFailure
  · simp only [hnot, if_true, Except.error.injEq, true_or, and_true]
    exact eq_comm
  · simp only [hnot, if_false, false_or]
    split
    · rename_i h
      simp only [Except.error.injEq]
      exact ⟨fun heq => ⟨heq.symm, h⟩, fun heq => heq.1.symm⟩
    · rename_i h
      simp only [h, and_false, reduceCtorEq]

/-- What the handler answers. -/
theorem cciHandleException_ok {expect err : CciParamFailure} {rpt : Report} :
    cciHandleException expect rpt = .ok err ↔ decodeParamFailure rpt = err ∧ err ≠ .notFailure ∧
      (err = expect ∨ expect = .anyFailure) := by
  unfold cciHandleException
  by_cases hnot : decodeParamFailure rpt = .notFailure
  · simp only [hnot, if_true, reduceCtorEq, false_iff]
    exact fun h => h.2.1 h.1.symm
  · simp only [hnot, if_false]
    split
    · rename_i h
      simp only [reduceCtorEq, false_iff]
      rintro ⟨rfl, -, hexp | hexp⟩
      · exact h.1 hexp
      · exact h.2 hexp
    · rename_i h
      simp only [Except.ok.injEq]
      constructor
      · rintro rfl
        exact ⟨rfl, hnot, by tauto⟩
      · exact fun hdec => hdec.1

/-! ### The reports of the commands -/

/-- The categories of the reports a command raises by itself. -/
def Cmd.failures : Cmd D → List CciParamFailure
  | .setPresetCciValue .. => [.setParamFailure]
  | c =>
      match c.access with
      | .write => [.setParamFailure, .valueFailure]
      | .read => [.valueFailure]
      | .none => []

theorem valueFailure_mem {c : Cmd D} (h : c.access ≠ .none) : .valueFailure ∈ c.failures := by
  cases c <;> first
    | exact absurd rfl h
    | simp only [Cmd.failures, Cmd.access, List.mem_cons, true_or, or_true]

theorem setParamFailure_mem {c : Cmd D} (h : c.access = .write) : .setParamFailure ∈ c.failures := by
  cases c <;> first
    | exact List.mem_cons_self
    | cases h

/-- The command raises the report by itself. -/
def Cmd.Reports (c : Cmd D) (r : Report) : Prop := D.throws = true ∧ decodeParamFailure r ∈ c.failures

/-- A program throws only reports in `P`, if what the commands raise by themselves and what leaves
nested callbacks is all that reaches it. -/
inductive Prog.Throws (P : Report → Prop) : Prog D → Prop where
  | ret (b : Bool) : Prog.Throws P (.ret b)
  | raise {r : Report} : P r → Prog.Throws P (.raise r)
  | cmd {c : Cmd D} {k : Except Report (Answer D) → Prog D} : (∀ a, Prog.Throws P (k (.ok a))) →
      (∀ r, P r ∨ c.Reports r → Prog.Throws P (k (.error r))) → Prog.Throws P (.cmd c k)

section

variable {P : Report → Prop}

theorem reportError_raises {r : Report} (h : D.throws = true → P r) :
    Raises P (reportError r : CciM D B Unit) := by
  refine Raises.bind (Raises.of_ok fun w => ⟨(), _, rfl⟩) fun _ => ?_
  split
  · rename_i hthrows
    exact Raises.raise (h hthrows)
  · exact Raises.pure ()

theorem raises_administering (p : D.Param) :
    Administering p fun α (m : CciM D B α) => Raises P m where
  pure := Raises.pure
  bind := Raises.bind
  getParam := Raises.of_ok fun w => ⟨_, w, rfl⟩
  modifyParam _ := Raises.of_ok fun _ => ⟨(), _, rfl⟩

theorem raises_reading {I : Interp D B} {p : D.Param} (hcall : ∀ f ev, Raises P (I.call f ev))
    (hvalue : ∀ r, D.throws = true → decodeParamFailure r = .valueFailure → P r) :
    Reading I p fun α (m : CciM D B α) => Raises P m where
  toAdministering := raises_administering p
  log _ := Raises.of_ok fun _ => ⟨(), _, rfl⟩
  abort := fun _ _ hr => nomatch hr
  valueFailure msg := reportError_raises fun ht => hvalue _ ht (decode_cciValueFailure msg)
  scopedTrue _ _ hm := (Raises.of_ok fun _ => ⟨(), _, rfl⟩).bind fun _ => hm.finalizing _
  loop _ _ hact := Raises.forEach hact
  call f ev _ := hcall f ev

theorem raises_writing {I : Interp D B} {p : D.Param} (hcall : ∀ f ev, Raises P (I.call f ev))
    (hvalue : ∀ r, D.throws = true → decodeParamFailure r = .valueFailure → P r)
    (hset : ∀ r, D.throws = true → decodeParamFailure r = .setParamFailure → P r) :
    Writing I p fun α (m : CciM D B α) => Raises P m where
  toReading := raises_reading hcall hvalue
  setFailure msg := reportError_raises fun ht => hset _ ht (decode_setParamFailed msg)
  consult _ hk := (Raises.of_ok fun w => ⟨w, w, rfl⟩).bind hk

variable [CciBrokerIf B D.BrokerHandle D.CciValue]

/-- The reports of refused presets are of the category of failed writes. -/
abbrev PresetReports (D : Design) (B : Type) [CciBrokerIf B D.BrokerHandle D.CciValue] : Prop :=
  ∀ (b : B) (h : D.BrokerHandle) (n : String) (c : D.CciValue) (o : CciOriginator) (r : Report),
    CciBrokerIf.setPresetCciValue b h n c o = .error r → decodeParamFailure r = .setParamFailure

/-- A command throws what the callback bodies throw, and what it raises by itself. -/
theorem exec_raises (hB : PresetReports D B) {I : Interp D B}
    (hcall : ∀ f ev, Raises P (I.call f ev)) (c : Cmd D) :
    Raises (fun r => P r ∨ c.Reports r) (exec I c) := by
  have hcall' : ∀ f ev, Raises (fun r => P r ∨ c.Reports r) (I.call f ev) :=
    fun f ev => (hcall f ev).mono fun _ => .inl
  have hrun : Raises (fun r => P r ∨ c.Reports r) (c.run I) := by
    cases hp : c.param? with
    | some p =>
      have hfail : ∀ {r f}, D.throws = true → decodeParamFailure r = f → f ∈ c.failures →
          P r ∨ c.Reports r := fun ht hdec hf => .inr ⟨ht, hdec ▸ hf⟩
      refine run_of_access hp (raises_administering p) (fun ha => ?_) fun ha => ?_
      · exact raises_reading hcall' fun r ht hdec => hfail ht hdec (valueFailure_mem ha)
      · exact raises_writing hcall'
          (fun r ht hdec => hfail ht hdec (valueFailure_mem (by rw [ha]; decide)))
          fun r ht hdec => hfail ht hdec (setParamFailure_mem ha)
    | none =>
      cases c with
      | setPresetCciValue h n v o =>
        refine Raises.bind (fun w r hr => ?_) fun _ => Raises.pure _
        simp only [setPreset, Eff.get_bind_run] at hr
        cases hpreset : CciBrokerIf.setPresetCciValue w.store.broker h n v o with
        | ok b =>
          rw [hpreset] at hr
          cases hr
        | error r' =>
          rw [hpreset] at hr
          refine reportError_raises (P := fun r => P r ∨ Cmd.Reports (.setPresetCciValue h n v o) r)
            (fun ht => .inr ⟨ht, ?_⟩) w r hr
          rw [hB _ _ _ _ _ _ hpreset]
          exact List.mem_singleton_self _
      | _ => cases hp
  exact (Raises.of_ok fun w => ⟨(), _, rfl⟩).bind fun _ => hrun.finalizing _

theorem runProg_raises {I : Interp D B}
    (hexec : ∀ c, Raises (fun r => P r ∨ c.Reports r) (exec I c)) {prog : Prog D}
    (hprog : prog.Throws P) : Raises P (runProg I prog) := by
  induction hprog with
  | ret b => exact Raises.pure b
  | raise h => exact Raises.raise h
  | @cmd c k _ _ ihok iherr =>
    intro w r hr
    simp only [runProg, Eff.bind_run, Eff.attempt] at hr
    rcases hc : exec I c w with ⟨a | r' | _ | _, t⟩ <;> rw [hc] at hr
    · exact ihok a t r hr
    · exact iherr r' (hexec c w r' (congrArg Prod.fst hc)) t r hr
    · cases hr
    · cases hr

theorem interp_raises (hB : PresetReports D B) {Γ : CallbackImpl → Payload D → Prog D}
    (hΓ : ∀ f ev, (Γ f ev).Throws P) (n : ℕ) :
    ∀ f ev, Raises P ((interp Γ n : Interp D B).call f ev) := by
  induction n with
  | zero => exact fun f ev w r hr => nomatch hr
  | succ n ih => exact fun f ev => runProg_raises (exec_raises hB ih) (hΓ f ev)

/-- **Documented failures, and their handling.**  Let callback bodies throw only reports in `P`.  In a
`try` block whose handler is `cci_handle_exception(expect)`, a command lets through only reports in `P`
and reports of its own categories, and of these no failure that is expected; the handler answers only
expected failures, of the categories of the command or of a report in `P`; and it changes nothing. -/
theorem handling_exact (hB : PresetReports D B) (Γ : CallbackImpl → Payload D → Prog D)
    (hΓ : ∀ f ev, (Γ f ev).Throws P) (n : ℕ) (c : Cmd D) (expect : CciParamFailure)
    (w : World D B) :
    let caught := (exec (interp Γ n) c).tryCatch (cciHandleException expect)
    (∀ r, (caught w).1 = .throw r → (P r ∨ c.Reports r) ∧
      (decodeParamFailure r = .notFailure ∨ decodeParamFailure r ≠ expect ∧ expect ≠ .anyFailure)) ∧
    (∀ err, (caught w).1 = .ok (.error err) → (err = expect ∨ expect = .anyFailure) ∧
      (err ∈ c.failures ∨ ∃ r, P r ∧ decodeParamFailure r = err)) ∧
    (caught w).2 = (exec (interp Γ n) c w).2 := by
  intro caught
  have hraises := exec_raises hB (interp_raises hB hΓ n) c w
  by_cases hthrow : ∃ r, (exec (interp Γ n) c w).1 = .throw r
  · obtain ⟨r, hr⟩ := hthrow
    have hown := hraises r hr
    have hrun : exec (interp Γ n) c w = (.throw r, (exec (interp Γ n) c w).2) := Prod.ext hr rfl
    cases hh : cciHandleException expect r with
    | ok err =>
      have hcaught : caught w = _ := tryCatch_caught hrun hh
      obtain ⟨hdec, -, hexp⟩ := cciHandleException_ok.1 hh
      rw [hcaught]
      refine ⟨fun r' hr' => (nomatch hr'), fun err' herr => ?_, rfl⟩
      cases herr
      refine ⟨hexp, ?_⟩
      rcases hown with hP | hrep
      · exact .inr ⟨r, hP, hdec⟩
      · exact .inl (hdec ▸ hrep.2)
    | error r' =>
      have hcaught : caught w = _ := tryCatch_rethrown hrun hh
      obtain ⟨rfl, hout⟩ := cciHandleException_error.1 hh
      rw [hcaught]
      refine ⟨fun r'' hr'' => ?_, fun err herr => (nomatch herr), rfl⟩
      cases hr''
      exact ⟨hown, hout⟩
  · obtain ⟨hno, hnone, hstate⟩ := tryCatch_of_not_throw (h := cciHandleException expect)
      (m := exec (interp Γ n) c) (s := w) fun r hr => hthrow ⟨r, hr⟩
    exact ⟨fun r hr => absurd hr (hno r), fun err herr => absurd herr (hnone err), hstate⟩

end

/-- The refusals of a consuming broker. -/
theorem consuming_presetReports {P : Type} [Inhabited D.CciValue] :
    PresetReports D (ConsumingBroker P D.CciValue) := by
  intro b h n c o r hr
  simp only [CciBrokerIf.setPresetCciValue, ConsumingBroker.setPresetCciValue] at hr
  split at hr
  · cases hr
    exact decode_setParamFailed _
  · cases hr

/-- A write to a locked parameter. -/
theorem handling_exact_locked :
    let I : Interp (natDesign Unit true) (ConsumingBroker Unit ℕ) := interp (fun _ _ => .ret true) 1
    let w := natWorld true (fun _ => "top.p") (fun _ => 1) (.named "top") {}
    let c : Cmd (natDesign Unit true) := .setValue () (7 : ℕ)
    let caught := (exec I c).tryCatch (cciHandleException .setParamFailure)
    (caught (states (exec I) w [.lock () none])).1 = .ok (.error .setParamFailure) ∧
      CciParamFailure.setParamFailure ∈ c.failures := by
  intro I w c caught
  have hcaught : (caught (states (exec I) w [.lock () none])).1 = .ok (.error .setParamFailure) := rfl
  refine ⟨hcaught, ?_⟩
  obtain ⟨-, hanswer, -⟩ := handling_exact (P := fun _ => False) consuming_presetReports
    (fun _ _ => .ret true) (fun _ _ => .ret true) 1 c .setParamFailure
    (states (exec I) w [.lock () none])
  exact ((hanswer _ hcaught).2).resolve_right fun ⟨_, hfalse, _⟩ => hfalse

end Cci
