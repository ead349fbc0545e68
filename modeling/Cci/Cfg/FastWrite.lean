import Cci.Cfg.FastFlags
import Cci.Cfg.Reentrancy

/-!
# The fast write path and the value origin

`set_value` relies on `fast_write` to tell that the last value origin was the owner.  A write keeps
that true by recomputing the flag, but `reset()` applies a preset without touching it, and a write
recomputes it after callbacks that may have written under another originator.

* `FastWriteSound` — what the fast path needs of a parameter object;
* `Cmd.WritesForeign`, `Cmd.ResetsForeign`, `TraceEvent.KeepsOwner` — the steps that break it;
* `RestoresSound` — how the objects before and after a command are related when no step does;
* `exec_sound`, `interp_sound` — every command is so related, with callbacks calling back in any way;
* `fast_write_equals_slow_write` — in such runs the fast path equals the slow path;
* `fast_write_keeps_foreign_origin`, `reset_foreign_breaks` — after a foreign reset it does not.
-/

namespace Cci

open Effect CciParamTyped

variable {D : Design} {B : Type}

/-- The value origin is the parameter's own originator. -/
def OwnOrigin {T : Type} (q : CciParam T) : Prop := (q.mValueOrigin == q.mOriginator) = true

/-- The flags are sound, and `fast_write` is only set while the value origin is the owner and no
write is being validated. -/
structure FastWriteSound (p : D.Param) (q : CciParam (D.Value p)) : Prop where
  flags : FastFlagsSound p q
  origin : q.fastWrite = true → OwnOrigin q
  idle : q.fastWrite = true → q.oncall .preWrite = false

theorem CciParam.Constructed.fastWriteSound {p : D.Param} {q : CciParam (D.Value p)}
    (h : q.Constructed) : FastWriteSound p q :=
  ⟨h.fastFlagsSound, fun hf => absurd (h.2.2.2.symm.trans hf) Bool.false_ne_true,
    fun hf => absurd (h.2.2.2.symm.trans hf) Bool.false_ne_true⟩

/-- An update that enables nothing. -/
theorem FastWriteSound.of_update {p : D.Param} {q q' : CciParam (D.Value p)}
    (h : FastWriteSound p q) (hflags : FastFlagsSound p q')
    (hsame : q'.fastWrite = true → q.fastWrite = true ∧ q'.mValueOrigin = q.mValueOrigin ∧
      q'.mOriginator = q.mOriginator ∧ q'.oncall .preWrite = q.oncall .preWrite) :
    FastWriteSound p q' := by
  refine ⟨hflags, fun hf => ?_, fun hf => ?_⟩
  · obtain ⟨hf', hv, ho, -⟩ := hsame hf
    rw [OwnOrigin, hv, ho]
    exact h.origin hf'
  · obtain ⟨hf', -, -, hc⟩ := hsame hf
    rw [hc]
    exact h.idle hf'

/-! ### The steps that break it -/

/-- A write that passes the gates of `set_raw_value` and is not made while another is validated. -/
def PassesGates (p : D.Param) (pwd : Option ℕ) (q : CciParam (D.Value p)) : Prop :=
  writeRefusal p pwd q = none ∧ q.oncall .preWrite = false

/-- A write under an originator other than the owner, which only a pre-write callback can stop. -/
def Cmd.WritesForeign (p : D.Param) (s : Store D B) : Cmd D → Prop
  | .handleSetValue r _ pwd o =>
      r = p ∧ PassesGates r pwd (s.params r) ∧ (o == (s.params r).mOriginator) = false
  | .setCciValue r c pwd o =>
      r = p ∧ Converts r c ∧ PassesGates r pwd (s.params r) ∧
        (o == (s.params r).mOriginator) = false
  | _ => False

section

variable [CciBrokerIf B D.BrokerHandle D.CciValue]

/-- A `reset()` to a preset recorded under an originator other than the owner, which only a
pre-write callback can stop. -/
def Cmd.ResetsForeign (p : D.Param) (s : Store D B) : Cmd D → Prop
  | .reset r =>
      r = p ∧ CciParamUntyped.isLocked (s.params r) = false ∧
        CciBrokerIf.hasPresetValue s.broker (s.mBrokerHandle r) (s.params r).mName = true ∧
        Converts r (CciBrokerIf.getPresetCciValue s.broker (s.mBrokerHandle r) (s.params r).mName) ∧
        (s.params r).oncall .preWrite = false ∧
        (CciBrokerIf.getPresetValueOrigin s.broker (s.mBrokerHandle r) (s.params r).mName ==
          (s.params r).mOriginator) = false
  | _ => False

/-- No foreign reset while `fast_write` is set, and nothing foreign is stored from inside the
parameter's own post-write callbacks. -/
def TraceEvent.KeepsOwner (p : D.Param) : TraceEvent D B → Prop
  | .step c s =>
      (c.WritesForeign p s ∨ c.ResetsForeign p s → (s.params p).oncall .postWrite = false) ∧
        (c.ResetsForeign p s → (s.params p).fastWrite = false)
  | _ => True

end

/-- Every recorded store is sound for `p`. -/
def RecordedSound (p : D.Param) (w : World D B) : Prop :=
  ∀ e ∈ w.trace, ∀ s, e.store? = some s → FastWriteSound p (s.params p)

theorem RecordedSound.record {p : D.Param} {w : World D B} (h : RecordedSound p w)
    {e : TraceEvent D B} (he : ∀ s, e.store? = some s → FastWriteSound p (s.params p)) :
    RecordedSound p (w.record e) := by
  intro e' he'
  rcases List.mem_append.1 he' with h' | h'
  · exact h e' h'
  · exact List.mem_singleton.1 h' ▸ he

variable [CciBrokerIf B D.BrokerHandle D.CciValue]

/-- No recorded step breaks the fast path of `p`. -/
def KeptOwner (p : D.Param) (w : World D B) : Prop := ∀ e ∈ w.trace, e.KeepsOwner p

theorem KeptOwner.of_extends {p : D.Param} {w w' : World D B} (h : KeptOwner p w')
    (hext : Extends w w') : KeptOwner p w := fun e he => h e (hext.trace he)

/-! ### Before and after -/

/-- What holds of `p` after a computation that came back: it is sound, it kept the owner as value
origin if its post-write callbacks were running, and all stores on the way were sound. -/
structure SoundAfter (p : D.Param) (w w' : World D B) : Prop where
  param : FastWriteSound p (w'.param p)
  own : (w.param p).oncall .postWrite = true → OwnOrigin (w.param p) → OwnOrigin (w'.param p)
  recorded : RecordedSound p w → RecordedSound p w'

/-- After any ending, the stores on the way were sound. -/
def ExtendsSound (p : D.Param) (w w' : World D B) : Prop :=
  Extends w w' ∧ (KeptOwner p w' → FastWriteSound p (w.param p) → RecordedSound p w →
    RecordedSound p w')

/-- After control came back. -/
def RestoresSound (p : D.Param) (w w' : World D B) : Prop :=
  Restores w w' ∧ (KeptOwner p w' → FastWriteSound p (w.param p) → SoundAfter p w w')

theorem sound_composable (p : D.Param) :
    Composable (ExtendsSound (B := B) p) (RestoresSound p) where
  refl w := ⟨restores_composable.refl w, fun _ h => ⟨h, fun _ ho => ho, fun hr => hr⟩⟩
  trans {w₁ w₂ w₃} h h' := by
    refine ⟨restores_composable.trans h.1 h'.1, fun hk hs => ?_⟩
    have h₂ := h.2 (hk.of_extends h'.1.toExtends) hs
    have h₃ := h'.2 hk h₂.param
    refine ⟨h₃.param, fun hc ho => h₃.own ?_ (h₂.own hc ho), fun hr => h₃.recorded (h₂.recorded hr)⟩
    rw [h.1.oncall]
    exact hc
  weaken h := ⟨h.1.toExtends, fun hk hs hr => (h.2 hk hs).recorded hr⟩
  after {w₁ w₂ w₃} h h' := by
    refine ⟨h.1.extends_trans h'.1, fun hk hs hr => ?_⟩
    have h₂ := h.2 (hk.of_extends h'.1) hs
    exact h'.2 hk h₂.param (h₂.recorded hr)

/-- A step that leaves `p` alone and records no store. -/
theorem RestoresSound.of_same {p : D.Param} {w w' : World D B} (h : Restores w w')
    (hp : w'.param p = w.param p) (hrec : RecordedSound p w → RecordedSound p w') :
    RestoresSound p w w' :=
  ⟨h, fun _ hs => ⟨hp ▸ hs, fun _ ho => hp ▸ ho, hrec⟩⟩

theorem sound_restores {p : D.Param} {α : Type} {m : CciM D B α}
    (h : Between (ExtendsSound p) (RestoresSound p) m) : Between Extends Restores m :=
  fun w => ⟨(h w).1.1, fun hret => ((h w).2 hret).1⟩

theorem log_sound (p : D.Param) {e : TraceEvent D B} (he : e.plain = true) :
    Between (ExtendsSound p) (RestoresSound p) (log e) :=
  Between.modify (sound_composable p) fun w =>
    .of_same (record_restores w (by cases e <;> trivial)) rfl fun hr =>
      hr.record fun s hs => by rw [TraceEvent.store?_of_plain he] at hs; cases hs

theorem sound_reports (p : D.Param) :
    Reports fun α (m _ : CciM D B α) => Between (ExtendsSound p) (RestoresSound p) m where
  toPlumbing := Between.plumbing (sound_composable p)
  report _ := log_sound p rfl

/-- An update of a parameter that enables nothing. -/
theorem modifyParam_sound (p r : D.Param) {f : CciParam (D.Value r) → CciParam (D.Value r)}
    (hf : ∀ q, (∀ k, (f q).oncall k = q.oncall k) ∧ (f q).mOriginator = q.mOriginator)
    (hsound : r = p → ∀ q, (FastWriteSound r q → FastWriteSound r (f q)) ∧
      (f q).mValueOrigin = q.mValueOrigin) :
    Between (ExtendsSound p) (RestoresSound p) (modifyParam r f : CciM D B Unit) := by
  refine Between.modify (sound_composable p) fun w => ?_
  have hrest := (modifyParam_restores r hf w).2 rfl
  by_cases hr : p = r
  · subst hr
    refine ⟨hrest, fun _ hs => ⟨?_, fun _ ho => ?_, fun hrec => hrec⟩⟩
    · rw [World.param_setParam]
      exact (hsound rfl _).1 hs
    · rw [World.param_setParam, OwnOrigin, (hsound rfl _).2, (hf _).2]
      exact ho
  · exact .of_same hrest (w.param_setParam_of_ne _ hr) fun hrec => hrec

/-! ### Dispatches -/

theorem ownOrigin_setOncall {T : Type} {q : CciParam T} {k : CallbackKind} {b : Bool} :
    OwnOrigin (q.setOncall k b) ↔ OwnOrigin q := Iff.rfl

/-- Setting a guard keeps the object sound, if pre-write validation starts on the slow path only. -/
theorem FastWriteSound.enter {p : D.Param} {q : CciParam (D.Value p)} (h : FastWriteSound p q)
    {k : CallbackKind} (hk : k = .preWrite → q.fastWrite = false) :
    FastWriteSound p (q.setOncall k true) := by
  refine ⟨h.flags.update (.oncall q k true), h.origin, fun hf => ?_⟩
  rw [CciParam.oncall_setOncall]
  split
  · rename_i hpre
    exact absurd ((hk hpre.symm).symm.trans hf) Bool.false_ne_true
  · exact h.idle hf

theorem FastWriteSound.leave {p : D.Param} {q : CciParam (D.Value p)} (h : FastWriteSound p q)
    (k : CallbackKind) : FastWriteSound p (q.setOncall k false) := by
  refine ⟨h.flags.update (.oncall q k false), h.origin, fun hf => ?_⟩
  rw [CciParam.oncall_setOncall]
  split
  · rfl
  · exact h.idle hf

/-- A non-empty list of write callbacks keeps the fast path off. -/
theorem FastWriteSound.slow {p : D.Param} {q : CciParam (D.Value p)} (h : FastWriteSound p q)
    {k : CallbackKind} (hk : k = .preWrite ∨ k = .postWrite) (hvec : q.vec k ≠ []) :
    q.fastWrite = false := by
  by_contra hf
  obtain ⟨-, -, h₁, h₂⟩ := h.flags.write (by simpa using hf)
  rcases hk with rfl | rfl
  · exact hvec h₁
  · exact hvec h₂

/-- What a dispatch of one of the lists of `p` leaves behind. -/
structure DispatchSound (p : D.Param) (k : CallbackKind) (w w' : World D B) : Prop extends
    SoundAfter p w w' where
  keepsOwn : k = .postWrite → OwnOrigin (w.param p) → OwnOrigin (w'.param p)
  keepsSlow : k = .preWrite → (w'.param p).fastWrite = true → (w.param p).fastWrite = true

omit [CciBrokerIf B D.BrokerHandle D.CciValue] in
theorem DispatchSound.of_same {p : D.Param} {k : CallbackKind} {w w' : World D B}
    (hs : FastWriteSound p (w.param p)) (hp : w'.param p = w.param p)
    (hrec : RecordedSound p w → RecordedSound p w') : DispatchSound p k w w' where
  param := hp ▸ hs
  own _ ho := hp ▸ ho
  recorded := hrec
  keepsOwn _ ho := hp ▸ ho
  keepsSlow _ hf := hp ▸ hf

omit [CciBrokerIf B D.BrokerHandle D.CciValue] in
theorem recordedSound_dispatch {p : D.Param} {w : World D B} (h : RecordedSound p w) (r : D.Param)
    (k : CallbackKind) (st : List (D.Param × CallbackKind)) :
    RecordedSound p (w.record (.dispatch r k st)) := h.record fun _ hs => by cases hs

/-- The dispatch of a list of `p`. -/
theorem guarded_sound {I : Interp D B} {p : D.Param} {k : CallbackKind} {α : Type}
    {act : CallbackObj → α → CciM D B α} (init skip : α)
    (hact : ∀ e a, Between (ExtendsSound p) (RestoresSound p) (act e a)) (w : World D B) :
    BetweenAt (ExtendsSound p)
      (fun w w' => Restores w w' ∧ (KeptOwner p w' → FastWriteSound p (w.param p) →
        DispatchSound p k w w')) (guarded I p k act init skip) w := by
  have hXR : ∀ {w w' : World D B}, (Restores w w' ∧ (KeptOwner p w' → FastWriteSound p (w.param p) →
      DispatchSound p k w w')) → ExtendsSound p w w' := fun h =>
    ⟨h.1.toExtends, fun hk hs hr => (h.2 hk hs).recorded hr⟩
  cases hg : (w.param p).oncall k with
  | true =>
    have hsame : Restores w w ∧ (KeptOwner p w → FastWriteSound p (w.param p) →
        DispatchSound p k w w) :=
      ⟨restores_composable.refl w, fun _ hs => .of_same hs rfl fun hr => hr⟩
    rw [BetweenAt, guarded_skip hg]
    exact ⟨hXR hsame, fun _ => hsame⟩
  | false =>
    by_cases hvec : (w.param p).vec k = []
    · have hsame : Restores w (w.record (.dispatch p k w.stack)) ∧
          (KeptOwner p (w.record (.dispatch p k w.stack)) → FastWriteSound p (w.param p) →
            DispatchSound p k w (w.record (.dispatch p k w.stack))) :=
        ⟨record_dispatch_restores hg, fun _ hs =>
          .of_same hs rfl fun hr => recordedSound_dispatch hr _ _ _⟩
      rw [BetweenAt, guarded_empty hg hvec]
      exact ⟨hXR hsame, fun _ => hsame⟩
    · have henter : FastWriteSound p (w.param p) →
          FastWriteSound p ((enterDispatch p k w).param p) := by
        intro hs
        rw [param_enterDispatch]
        exact hs.enter fun hk => hs.slow (.inl hk) hvec
      refine ((Between.forEach (sound_composable p) hact I.fuel 0 init _).scope (fun t ht => ?_)
        (fun t ht => ?_) (fun t ht => hXR ht)).congr (guarded_open hg)
      · exact ⟨enterDispatch_extends hg ht.1, fun hk hs hr =>
          ht.2 hk (henter hs) (recordedSound_dispatch hr _ _ _)⟩
      · refine ⟨leaveDispatch_restores hg ht.1, fun hk hs => ?_⟩
        have hin := ht.2 hk (henter hs)
        have hguard : (t.param p).oncall k = true := by
          rw [ht.1.oncall, param_enterDispatch, CciParam.oncall_setOncall, if_pos rfl]
        have hown : ((enterDispatch p k w).param p).oncall .postWrite = true →
            OwnOrigin (w.param p) → OwnOrigin ((leaveDispatch p k t).param p) := by
          intro hc ho
          rw [param_leaveDispatch, ownOrigin_setOncall]
          refine hin.own hc ?_
          rw [param_enterDispatch, ownOrigin_setOncall]
          exact ho
        refine ⟨⟨?_, fun hc ho => hown ?_ ho, fun hr => ?_⟩, fun hk' ho => hown ?_ ho, fun hk' hf => ?_⟩
        · rw [param_leaveDispatch]
          exact hin.param.leave k
        · rw [param_enterDispatch, CciParam.oncall_setOncall, hc]
          split <;> rfl
        · exact hin.recorded (recordedSound_dispatch hr _ _ _)
        · rw [param_enterDispatch, CciParam.oncall_setOncall, if_pos hk'.symm]
        · rw [param_leaveDispatch] at hf
          have hidle := hin.param.idle hf
          rw [← hk', hguard] at hidle
          cases hidle

/-- The dispatch of a list of another parameter. -/
theorem guarded_sound_of_ne {I : Interp D B} {p r : D.Param} (hr : p ≠ r) {k : CallbackKind}
    {α : Type} {act : CallbackObj → α → CciM D B α} {init skip : α}
    (hact : ∀ e a, Between (ExtendsSound p) (RestoresSound p) (act e a)) :
    Between (ExtendsSound p) (RestoresSound p) (guarded I r k act init skip) := by
  intro w
  cases hg : (w.param r).oncall k with
  | true => exact .of_run (sound_composable p) (guarded_skip hg) ((sound_composable p).refl w)
  | false =>
    have henter : FastWriteSound p (w.param p) →
        FastWriteSound p ((enterDispatch r k w).param p) := by
      intro hs
      rw [param_enterDispatch_of_ne w k hr]
      exact hs
    refine ((Between.forEach (sound_composable p) hact I.fuel 0 init _).scope (fun t ht => ?_)
      (fun t ht => ?_) (fun t ht => (sound_composable p).weaken ht)).congr (guarded_open hg)
    · exact ⟨enterDispatch_extends hg ht.1, fun hk hs hrec =>
        ht.2 hk (henter hs) (recordedSound_dispatch hrec _ _ _)⟩
    · refine ⟨leaveDispatch_restores hg ht.1, fun hk hs => ?_⟩
      have hin := ht.2 hk (henter hs)
      have hp : (leaveDispatch r k t).param p = t.param p := param_leaveDispatch_of_ne t k hr
      have hp' := param_enterDispatch_of_ne w k hr
      refine ⟨hp ▸ hin.param, fun hc ho => ?_, fun hrec =>
        hin.recorded (recordedSound_dispatch hrec _ _ _)⟩
      rw [hp]
      exact hin.own (hp'.symm ▸ hc) (hp'.symm ▸ ho)

section

variable {I : Interp D B} {p : D.Param}
variable (hcall : ∀ f ev, Between (ExtendsSound p) (RestoresSound p) (I.call f ev))

include hcall

theorem sound_closed : Closed I I (fun _ _ => True)
    (fun _ m _ => Between (ExtendsSound p) (RestoresSound p) m)
    (fun _ m _ => Between (ExtendsSound p) (RestoresSound p) m) where
  outer := sound_reports p
  inner := sound_reports p
  call := hcall
  invoked _ _ _ _ _ := log_sound p rfl
  guarded r k init skip _ hact := by
    by_cases hr : p = r
    · subst hr
      intro w
      obtain ⟨hX, hR⟩ := guarded_sound init skip hact w
      exact ⟨hX, fun hret => ⟨(hR hret).1, fun hk hs => ((hR hret).2 hk hs).toSoundAfter⟩⟩
    · exact guarded_sound_of_ne hr hact
  fastRead r := modifyParam_sound p r (fun _ => ⟨fun _ => rfl, rfl⟩) fun _ q =>
    ⟨fun hs => hs.of_update (hs.flags.update (.fastRead q)) fun hf => ⟨hf, rfl, rfl, rfl⟩, rfl⟩

omit hcall in
theorem sound_administers :
    Administers fun α (m _ : CciM D B α) => Between (ExtendsSound p) (RestoresSound p) m where
  lock r pwd := by
    refine modifyParam_sound p r (fun q => ⟨oncall_lock pwd q, originator_lock pwd q⟩) fun _ q =>
      ⟨fun hs => hs.of_update (hs.flags.update (.lock q pwd)) fun hf => ?_, ?_⟩
    · rw [(fastFlags_lock pwd q).1] at hf
      cases hf
    · unfold CciParamTyped.lock CciParamUntyped.lock
      split <;> rfl
  unlock r pwd := by
    refine modifyParam_sound p r (fun q => ⟨oncall_unlock pwd q, originator_unlock pwd q⟩) fun _ q =>
      ⟨fun hs => hs.of_update (hs.flags.update (.unlock q pwd)) ?_, ?_⟩
    · unfold CciParamUntyped.unlock
      split <;> exact fun hf => ⟨hf, rfl, rfl, rfl⟩
    · unfold CciParamUntyped.unlock
      split <;> rfl
  setPreset := (sound_reports p).setPreset fun b => Between.modify (sound_composable p) fun w =>
    .of_same (restores_of_same_trace rfl rfl fun _ => ⟨fun _ => rfl, rfl⟩) rfl fun hr => hr

omit hcall in
theorem sound_registers :
    Registers fun α (m _ : CciM D B α) => Between (ExtendsSound p) (RestoresSound p) m where
  register r k cb o :=
    modifyParam_sound p r (fun q => ⟨oncall_registerCallback k cb o q, rfl⟩) fun _ q =>
      ⟨fun hs => hs.of_update (hs.flags.update (.register q k cb o)) fun hf => Bool.noConfusion hf, rfl⟩
  registerOwn r k cb :=
    modifyParam_sound p r (fun q => ⟨oncall_registerCallback k cb q.mOriginator
      { q with fastRead := false, fastWrite := false }, rfl⟩) fun _ q =>
      ⟨fun hs => hs.of_update (hs.flags.update (.register q k cb q.mOriginator))
        fun hf => Bool.noConfusion hf, rfl⟩
  unregister r k cb o := by
    refine modifyParam_sound p r (fun q => ⟨oncall_unregisterCallback k cb o q,
      originator_unregisterCallback k cb o q⟩) fun _ q =>
      ⟨fun hs => hs.of_update (hs.flags.update (.unregister q k cb o)) fun hf => ?_, ?_⟩
    · rw [oncall_unregisterCallback]
      unfold CciParamUntyped.unregisterCallback at hf ⊢
      split at hf <;> split <;> exact ⟨hf, rfl, rfl, rfl⟩
    · unfold CciParamUntyped.unregisterCallback
      split <;> rfl
  unregisterAll r o := by
    refine modifyParam_sound p r (fun q => ⟨oncall_unregisterAllCallbacks o q, rfl⟩) fun _ q =>
      ⟨fun hs => hs.of_update ?_ fun hf => ⟨hf, rfl, rfl, oncall_unregisterAllCallbacks o q _⟩, rfl⟩
    have h₁ := hs.flags.update (.unregisterAll _ o .preWrite)
    have h₂ := h₁.update (.unregisterAll _ o .postWrite)
    have h₃ := h₂.update (.unregisterAll _ o .preRead)
    exact h₃.update (.unregisterAll _ o .postRead)

omit hcall in
/-- A write to another parameter. -/
theorem sound_stores_of_ne {r : D.Param} (hr : r ≠ p) :
    Stores (fun α (m _ : CciM D B α) => Between (ExtendsSound p) (RestoresSound p) m) r where
  value _ := modifyParam_sound p r (fun _ => ⟨fun _ => rfl, rfl⟩) fun h => absurd h hr
  origin _ := modifyParam_sound p r (fun _ => ⟨fun _ => rfl, rfl⟩) fun h => absurd h hr
  fastWrite _ := modifyParam_sound p r (fun _ => ⟨fun _ => rfl, rfl⟩) fun h => absurd h hr

end

/-! ### Writes to the parameter itself -/

/-- What the assignments and the post-write callbacks of a write under `o` leave behind, before the
write recomputes `fast_write`. -/
structure CommittedSound (p : D.Param) (o : CciOriginator) (w w' : World D B) : Prop where
  flags : FastFlagsSound p (w'.param p)
  idle : (w'.param p).fastWrite = true → (w'.param p).oncall .preWrite = false
  origin : ((w.param p).fastWrite = true → (o == (w.param p).mOriginator) = true) →
    (w'.param p).fastWrite = true → OwnOrigin (w'.param p)
  own : (o == (w.param p).mOriginator) = true → OwnOrigin (w'.param p)
  recorded : RecordedSound p w → RecordedSound p w'

section

variable {I : Interp D B} {p : D.Param}
variable (hcall : ∀ f ev, Between (ExtendsSound p) (RestoresSound p) (I.call f ev))

include hcall

theorem commit_sound (v : D.Value p) (o : CciOriginator) (oldValue : D.Value p) (w : World D B) :
    BetweenAt (ExtendsSound p)
      (fun w w' => Restores w w' ∧ (KeptOwner p w' → FastWriteSound p (w.param p) →
        CommittedSound p o w w')) (commit I p v o oldValue) w := by
  let w₁ := w.setParam p (stored v o (w.param p))
  have hp₁ : w₁.param p = stored v o (w.param p) := w.param_setParam p _
  have hw₁ : Restores w w₁ := restores_of_same_trace rfl rfl fun r => by
    by_cases hr : r = p
    · subst hr
      rw [hp₁]
      exact ⟨fun _ => rfl, rfl⟩
    · rw [show w₁.param r = w.param r from w.param_setParam_of_ne _ hr]
      exact ⟨fun _ => rfl, rfl⟩
  have hflags₁ : FastWriteSound p (w.param p) → FastFlagsSound p (w₁.param p) := by
    intro hs
    rw [hp₁]
    exact (hs.flags.update (.value _ v)).update (.origin _ o)
  -- a write that runs no post-write callback leaves the object as stored
  have hquiet : ∀ t : World D B, Restores w₁ t → t.param p = w₁.param p →
      (RecordedSound p w₁ → RecordedSound p t) → Restores w t ∧
        (KeptOwner p t → FastWriteSound p (w.param p) → CommittedSound p o w t) := by
    intro t ht hp hrec
    refine ⟨restores_composable.trans hw₁ ht, fun _ hs => ⟨?_, ?_, ?_, ?_, hrec⟩⟩
    · rw [hp]
      exact hflags₁ hs
    · rw [hp, hp₁]
      exact hs.idle
    · rw [hp, hp₁]
      exact fun hfast hf => hfast hf
    · rw [hp, hp₁]
      exact fun ho => ho
  have hXR : ∀ {t : World D B}, (Restores w t ∧ (KeptOwner p t → FastWriteSound p (w.param p) →
      CommittedSound p o w t)) → ExtendsSound p w t := fun h =>
    ⟨h.1.toExtends, fun hk hs hr => (h.2 hk hs).recorded hr⟩
  simp only [BetweenAt, commit_run, postWriteCallback, observe_eq_guarded]
  cases hg : (w₁.param p).oncall .postWrite with
  | true =>
    rw [guarded_skip hg]
    have hback := hquiet w₁ (restores_composable.refl _) rfl fun hr => hr
    exact ⟨hXR hback, fun _ => hback⟩
  | false =>
    by_cases hvec : (w₁.param p).vec .postWrite = []
    · rw [guarded_empty hg hvec]
      have hback := hquiet (w₁.record (.dispatch p .postWrite w₁.stack))
        (record_dispatch_restores hg) rfl fun hr => recordedSound_dispatch hr _ _ _
      exact ⟨hXR hback, fun _ => hback⟩
    · -- callbacks run, so `fast_write` was off and the stored object is sound
      have hslow : FastWriteSound p (w.param p) → (w.param p).fastWrite = false := fun hs =>
        hs.slow (.inr rfl) (by rwa [hp₁] at hvec)
      have hsound₁ : FastWriteSound p (w.param p) → FastWriteSound p (w₁.param p) := by
        intro hs
        refine hs.of_update (hflags₁ hs) fun hf => ?_
        rw [hp₁] at hf
        exact absurd ((hslow hs).symm.trans hf) Bool.false_ne_true
      obtain ⟨hX, hR⟩ := guarded_sound (I := I) (k := .postWrite) () ()
        (fun e a => (sound_closed hcall).observerEntry trivial
          (fun _ entry => .write oldValue v o entry.originator) e a) w₁
      refine ⟨⟨hw₁.extends_trans hX.1, fun hk hs hr => hX.2 hk (hsound₁ hs) hr⟩, fun hret => ?_⟩
      refine ⟨restores_composable.trans hw₁ (hR hret).1, fun hk hs => ?_⟩
      have hafter := (hR hret).2 hk (hsound₁ hs)
      refine ⟨hafter.param.flags, hafter.param.idle, fun _ => hafter.param.origin, fun ho => ?_,
        hafter.recorded⟩
      refine hafter.keepsOwn rfl ?_
      rw [hp₁]
      exact ho

omit hcall in
/-- A commit that enables nothing foreign leaves the object sound without a recomputation. -/
theorem CommittedSound.restores {o : CciOriginator} {t u : World D B} (hrest : Restores t u)
    (hcommit : KeptOwner p u → FastWriteSound p (t.param p) → CommittedSound p o t u)
    (hown : (t.param p).oncall .postWrite = true → (o == (t.param p).mOriginator) = true)
    (hfast : FastWriteSound p (t.param p) → (t.param p).fastWrite = true →
      (o == (t.param p).mOriginator) = true) : RestoresSound p t u := by
  refine ⟨hrest, fun hk hs => ?_⟩
  have hc := hcommit hk hs
  exact ⟨⟨hc.flags, hc.origin (hfast hs), hc.idle⟩, fun hpost _ => hc.own (hown hpost), hc.recorded⟩

omit hcall in
/-- The recomputation of `fast_write` repairs what a commit left behind. -/
theorem CommittedSound.recompute {o : CciOriginator} {t u : World D B} (hrest : Restores t u)
    (hcommit : KeptOwner p u → FastWriteSound p (t.param p) → CommittedSound p o t u)
    (hpre : (t.param p).oncall .preWrite = false)
    (hown : (t.param p).oncall .postWrite = true → (o == (t.param p).mOriginator) = true) :
    RestoresSound p t (u.setParam p { u.param p with
      fastWrite := fastWriteAllowed p o (u.param p) }) := by
  have hlast : Restores u (u.setParam p { u.param p with
      fastWrite := fastWriteAllowed p o (u.param p) }) :=
    (modifyParam_restores p (f := fun q => { q with fastWrite := fastWriteAllowed p o q })
      (fun _ => ⟨fun _ => rfl, rfl⟩) u).2 rfl
  refine ⟨restores_composable.trans hrest hlast, fun hk hs => ?_⟩
  have hc := hcommit (hk.of_extends hlast.toExtends) hs
  refine ⟨?_, fun hpost _ => ?_, fun hr => hc.recorded hr⟩
  · rw [World.param_setParam]
    refine ⟨hc.flags.update (.fastWrite _ o), fun hf => ?_, fun _ => ?_⟩
    · have ho := (fastWriteAllowed_iff.1 hf).2.2.2.2
      rw [hrest.originator] at ho
      exact hc.own ho
    · exact (hrest.oncall p .preWrite).trans hpre
  · rw [World.param_setParam]
    exact hc.own (hown hpost)

theorem finishWrite_sound (v : D.Value p) (o : CciOriginator) (oldValue : D.Value p)
    (t : World D B) (hpre : (t.param p).oncall .preWrite = false)
    (hown : (t.param p).oncall .postWrite = true → (o == (t.param p).mOriginator) = true) :
    BetweenAt (ExtendsSound p) (RestoresSound p) (finishWrite I p v o oldValue) t := by
  have hXR := sound_composable (B := B) p
  obtain ⟨hX, hR⟩ := commit_sound hcall v o oldValue t
  rcases hc : commit I p v o oldValue t with ⟨u | e | _ | _, u⟩ <;> rw [hc] at hX hR
  · exact .of_run hXR (finishWrite_ok hc) (CommittedSound.recompute (hR rfl).1 (hR rfl).2 hpre hown)
  · have hback := CommittedSound.restores (hR rfl).1 (hR rfl).2 hown fun hs hf =>
      absurd ((hs.slow (.inr rfl) (commit_throw hc)).symm.trans hf) Bool.false_ne_true
    exact .of_run hXR (Eff.bind_run_throw hc _) hback
  · rw [BetweenAt, finishWrite, Eff.bind_run, hc]
    exact ⟨hX, fun h => Bool.noConfusion h⟩
  · rw [BetweenAt, finishWrite, Eff.bind_run, hc]
    exact ⟨hX, fun h => Bool.noConfusion h⟩

/-- `set_raw_value` past its gates.  Under a foreign originator it must not run inside the
post-write callbacks. -/
theorem rawWrite_sound (v : D.Value p) (o : CciOriginator) (w : World D B)
    (hforeign : (w.param p).oncall .preWrite = false → (w.param p).oncall .postWrite = true →
      (o == (w.param p).mOriginator) = true) :
    BetweenAt (ExtendsSound p) (RestoresSound p) (rawWrite I p v o) w := by
  have hXR := sound_composable (B := B) p
  refine BetweenAt.bind hXR ((sound_closed hcall).preWriteCallback trivial v o w) fun b t hrun ht => ?_
  cases b with
  | false =>
    simp only [Bool.not_false, if_true]
    exact .of_run hXR (Eff.pure_run false t) (hXR.refl t)
  | true =>
    have hpre := preWriteCallback_passed hrun
    simp only [Bool.not_true, Bool.false_eq_true, if_false]
    refine BetweenAt.congr (finishWrite_sound hcall v o (t.param p).mValue t ?_ ?_)
      (Eff.gets_bind_run _ _ t)
    · rw [ht.1.oncall]
      exact hpre
    · rw [ht.1.oncall, ht.1.originator]
      exact hforeign hpre

/-- A preset or default value past the pre-write callbacks.  Under a foreign originator `fast_write`
must be off, and the write must not run inside the post-write callbacks. -/
theorem applyValue_sound (v : D.Value p) (o : CciOriginator)
    (old : CciParam (D.Value p) → D.Value p) (w : World D B)
    (hforeign : (w.param p).oncall .preWrite = false →
      ((w.param p).oncall .postWrite = true → (o == (w.param p).mOriginator) = true) ∧
      ((w.param p).fastWrite = true → (o == (w.param p).mOriginator) = true)) :
    BetweenAt (ExtendsSound p) (RestoresSound p) (applyValue I p v o old) w := by
  have hXR := sound_composable (B := B) p
  obtain ⟨hX, hR⟩ := guarded_sound (I := I) (k := .preWrite) true false
    (fun e a => (sound_closed hcall).preWriteEntry trivial v o e a) w
  rw [← preWriteCallback_eq_guarded] at hX hR
  rcases hrun : preWriteCallback I p v o w with ⟨b | e | _ | _, t⟩ <;> rw [hrun] at hX hR
  · cases b with
    | false =>
      exact .of_run hXR (applyValue_stopped hrun (by simp))
        ⟨(hR rfl).1, fun hk hs => ((hR rfl).2 hk hs).toSoundAfter⟩
    | true =>
      obtain ⟨hrest, hdisp⟩ := hR rfl
      obtain ⟨hpost, hfast⟩ := hforeign (preWriteCallback_passed hrun)
      obtain ⟨hX', hR'⟩ := commit_sound hcall v o (old (t.param p)) t
      -- the commit as seen from `w`, where the pre-write dispatch has not enabled the fast path
      have hback : ∀ u, (Restores t u ∧ (KeptOwner p u → FastWriteSound p (t.param p) →
          CommittedSound p o t u)) → RestoresSound p w u := by
        intro u hu
        refine ⟨restores_composable.trans hrest hu.1, fun hk hs => ?_⟩
        have hd := hdisp (hk.of_extends hu.1.toExtends) hs
        have hc := hu.2 hk hd.param
        have howner : (t.param p).mOriginator = (w.param p).mOriginator := hrest.originator p
        refine ⟨⟨hc.flags, hc.origin fun hf => ?_, hc.idle⟩, fun hon _ => hc.own ?_,
          fun hr => hc.recorded (hd.recorded hr)⟩
        · rw [howner]
          exact hfast (hd.keepsSlow rfl hf)
        · rw [howner]
          exact hpost hon
      have hstop : ∀ u, ExtendsSound p t u → ExtendsSound p w u := by
        intro u hu
        refine ⟨hrest.extends_trans hu.1, fun hk hs hr => ?_⟩
        have hd := hdisp (hk.of_extends hu.1) hs
        exact hu.2 hk hd.param (hd.recorded hr)
      refine BetweenAt.congr (m := fun _ => (commit I p v o (old (t.param p)) >>= fun _ =>
        (pure true : CciM D B Bool)) t) ?_ (applyValue_passed hrun)
      simp only [BetweenAt, Eff.bind_run]
      rcases hc : commit I p v o (old (t.param p)) t with ⟨_ | e | _ | _, u⟩ <;> rw [hc] at hX' hR'
      · exact ⟨hXR.weaken (hback u (hR' rfl)), fun _ => hback u (hR' rfl)⟩
      · exact ⟨hXR.weaken (hback u (hR' rfl)), fun _ => hback u (hR' rfl)⟩
      · exact ⟨hstop u hX', fun h => Bool.noConfusion h⟩
      · exact ⟨hstop u hX', fun h => Bool.noConfusion h⟩
  · exact .of_run hXR (Eff.bind_run_throw hrun _)
      ⟨(hR rfl).1, fun hk hs => ((hR rfl).2 hk hs).toSoundAfter⟩
  · rw [BetweenAt, applyValue, Eff.bind_run, hrun]
    exact ⟨hX, fun h => Bool.noConfusion h⟩
  · rw [BetweenAt, applyValue, Eff.bind_run, hrun]
    exact ⟨hX, fun h => Bool.noConfusion h⟩

theorem setRawValue_sound (v : D.Value p) (pwd : Option ℕ) (o : CciOriginator) (w : World D B)
    (hforeign : PassesGates p pwd (w.param p) → (w.param p).oncall .postWrite = true →
      (o == (w.param p).mOriginator) = true) :
    BetweenAt (ExtendsSound p) (RestoresSound p) (setRawValue I p v pwd o) w := by
  have hrun := setRawValue_eq I p v pwd o w
  cases hr : writeRefusal p pwd (w.param p) with
  | some r =>
    rw [hr] at hrun
    exact ((sound_reports p).refuse r w).congr hrun
  | none =>
    rw [hr] at hrun
    exact (rawWrite_sound hcall v o w fun hpre => hforeign ⟨hr, hpre⟩).congr hrun

theorem setCciValue_sound (c : D.CciValue) (pwd : Option ℕ) (o : CciOriginator) (w : World D B)
    (hforeign : Converts p c → PassesGates p pwd (w.param p) →
      (w.param p).oncall .postWrite = true → (o == (w.param p).mOriginator) = true) :
    BetweenAt (ExtendsSound p) (RestoresSound p) (setCciValue I p c pwd o) w := by
  refine BetweenAt.bind (sound_composable p) ((sound_reports p).cciValueGet p c w) fun v t hrun _ => ?_
  have hstore : t.param p = w.param p := cciValueGet_param hrun p
  refine setRawValue_sound hcall v pwd o t ?_
  rw [hstore]
  exact hforeign (cciValueGet_ok hrun)

theorem presetCciValue_sound (c : D.CciValue) (o : CciOriginator) (w : World D B)
    (hforeign : Converts p c → (w.param p).oncall .preWrite = false →
      ((w.param p).oncall .postWrite = true → (o == (w.param p).mOriginator) = true) ∧
      ((w.param p).fastWrite = true → (o == (w.param p).mOriginator) = true)) :
    BetweenAt (ExtendsSound p) (RestoresSound p) (presetCciValue I p c o) w := by
  refine BetweenAt.congr ?_ (presetCciValue_eq I p c o w)
  refine BetweenAt.bind (sound_composable p) ((sound_reports p).cciValueGet p c w) fun v t hrun _ => ?_
  have hstore : t.param p = w.param p := cciValueGet_param hrun p
  refine applyValue_sound hcall v o _ t ?_
  rw [hstore]
  exact hforeign (cciValueGet_ok hrun)

theorem reset_sound (w : World D B)
    (hforeign : Cmd.ResetsForeign p w.store (.reset p) →
      (w.param p).oncall .postWrite = false ∧ (w.param p).fastWrite = false) :
    BetweenAt (ExtendsSound p) (RestoresSound p) (reset I p) w := by
  have hXR := sound_composable (B := B) p
  have hrun := reset_eq I p w
  cases hl : CciParamUntyped.isLocked (w.param p) with
  | true =>
    rw [hl, if_pos rfl] at hrun
    exact .of_run hXR hrun (hXR.refl w)
  | false =>
    rw [hl, if_neg Bool.false_ne_true] at hrun
    cases hh : CciBrokerIf.hasPresetValue w.store.broker (w.store.mBrokerHandle p)
        (w.param p).mName with
    | true =>
      rw [hh, if_pos rfl] at hrun
      refine BetweenAt.congr (BetweenAt.bind hXR (presetCciValue_sound hcall _ _ w ?_)
        fun _ t _ _ => (sound_reports p).pure true t) hrun
      intro hconv hpre
      cases ho : CciBrokerIf.getPresetValueOrigin w.store.broker (w.store.mBrokerHandle p)
          (w.param p).mName == (w.param p).mOriginator with
      | true => exact ⟨fun _ => rfl, fun _ => rfl⟩
      | false =>
        obtain ⟨hpost, hfast⟩ := hforeign ⟨rfl, hl, hh, hconv, hpre, ho⟩
        exact ⟨fun h => absurd (hpost.symm.trans h) Bool.false_ne_true,
          fun h => absurd (hfast.symm.trans h) Bool.false_ne_true⟩
    | false =>
      rw [hh, if_neg Bool.false_ne_true] at hrun
      exact (applyValue_sound hcall _ _ _ w fun _ =>
        ⟨fun _ => BEq.rfl, fun _ => BEq.rfl⟩).congr hrun

/-- One command at a state it does not break. -/
theorem run_sound (c : Cmd D) (w : World D B)
    (hok : TraceEvent.KeepsOwner p (.step c w.store : TraceEvent D B)) :
    BetweenAt (ExtendsSound p) (RestoresSound p) (c.run I) w := by
  have hC := sound_closed hcall
  have hXR := sound_composable (B := B) p
  by_cases hw : c.writes p
  swap
  · refine hC.run_all (fun _ => ⟨trivial, trivial⟩) c (fun r hr => ?_) sound_administers
      sound_registers w
    refine ⟨sound_stores_of_ne fun hrp => hw (hrp ▸ hr), trivial, trivial⟩
  have hans : ∀ {α : Type} {m : CciM D B α} (f : α → Answer D),
      BetweenAt (ExtendsSound p) (RestoresSound p) m w →
      BetweenAt (ExtendsSound p) (RestoresSound p) (m >>= fun a => pure (f a)) w :=
    fun f hm => hm.bind hXR fun a t _ _ => hC.outer.pure (f a) t
  have hpost : ∀ {b : Bool}, (c.WritesForeign p w.store ∨ c.ResetsForeign p w.store) →
      (w.param p).oncall .postWrite = true → b = true := fun hf h =>
    absurd ((hok.1 hf).symm.trans h) Bool.false_ne_true
  cases c with
  | setValue r v =>
    cases hw
    refine hans _ ?_
    cases hf : (w.param p).fastWrite with
    | true =>
      have hv := modifyParam_sound (B := B) p p (f := fun q => { q with mValue := v })
        (fun _ => ⟨fun _ => rfl, rfl⟩) (fun _ q => ⟨fun hs => hs.of_update
          (hs.flags.update (.value q v)) fun hf => ⟨hf, rfl, rfl, rfl⟩, rfl⟩)
      refine BetweenAt.congr ((hv w).bind hXR fun _ t _ _ => hC.outer.pure true t) ?_
      simp only [setValue, getParam, Eff.gets_bind_run, hf, if_true]
    | false =>
      exact BetweenAt.congr (setRawValue_sound hcall v none (w.param p).mOriginator w
        fun _ _ => BEq.rfl) (setValue_slow hf I v)
  | setValuePwd r v pwd =>
    cases hw
    exact hans _ (BetweenAt.congr (setRawValue_sound hcall v pwd (w.param p).mOriginator w
      fun _ _ => BEq.rfl) (Eff.gets_bind_run _ _ w))
  | handleSetValue r v pwd o =>
    cases hw
    refine hans _ (setRawValue_sound hcall v pwd o w fun hgate hon => ?_)
    cases ho : o == (w.param p).mOriginator with
    | true => rfl
    | false => exact hpost (.inl ⟨rfl, hgate, ho⟩) hon
  | setCciValue r c pwd o =>
    cases hw
    refine hans _ (setCciValue_sound hcall c pwd o w fun hconv hgate hon => ?_)
    cases ho : o == (w.param p).mOriginator with
    | true => rfl
    | false => exact hpost (.inl ⟨rfl, hconv, hgate, ho⟩) hon
  | reset r =>
    cases hw
    exact hans _ (reset_sound hcall w fun hf => ⟨hok.1 (.inr hf), hok.2 hf⟩)
  | _ => exact hw.elim

/-- Every command relates the objects before and after it, whatever its callbacks do. -/
theorem exec_sound (c : Cmd D) : Between (ExtendsSound p) (RestoresSound p) (exec I c) := by
  intro w
  have hcallR : ∀ f ev, Between Extends Restores (I.call f ev) := fun f ev => sound_restores (hcall f ev)
  let w₁ : World D B := w.record (.step c w.store)
  have hstep : Restores w w₁ := record_restores w trivial
  by_cases hok : TraceEvent.KeepsOwner p (.step c w.store : TraceEvent D B)
  · have hrec : FastWriteSound p (w.param p) → RecordedSound p w → RecordedSound p w₁ :=
      fun hs hr => hr.record fun s hs' => by cases hs'; exact hs
    refine BetweenAt.scope (run_sound hcall c w₁ hok) (fun t ht => ?_) (fun t ht => ?_)
      fun t ht => (sound_composable p).weaken ht
    · exact ⟨hstep.extends_trans ht.1, fun hk hs hr => ht.2 hk hs (hrec hs hr)⟩
    · have hdone : Restores t (t.record (.done c t.store)) := record_restores t trivial
      refine ⟨restores_composable.trans (restores_composable.trans hstep ht.1) hdone,
        fun hk hs => ?_⟩
      have hafter := ht.2 (hk.of_extends hdone.toExtends) hs
      exact ⟨hafter.param, hafter.own, fun hr => (hafter.recorded (hrec hs hr)).record
        fun s hs' => by cases hs'; exact hafter.param⟩
  · -- the step is recorded, so no world reached from here is free of breaking steps
    have hbroken : ∀ {t : World D B}, Extends w₁ t → ¬KeptOwner p t := fun ht hk =>
      hok (hk _ (ht.trace (List.mem_append_right _ (List.mem_singleton_self _))))
    have hrun := run_restores hcallR c w₁
    refine BetweenAt.scope hrun (fun t ht => ?_) (fun t ht => ?_)
      fun t ht => (sound_composable p).weaken ht
    · exact ⟨hstep.extends_trans ht, fun hk => absurd hk (hbroken ht)⟩
    · have hdone : Restores t (t.record (.done c t.store)) := record_restores t trivial
      exact ⟨restores_composable.trans (restores_composable.trans hstep ht) hdone, fun hk =>
        absurd hk (hbroken (restores_composable.trans ht hdone).toExtends)⟩

end

/-- With bodies that are programs, nested to any depth. -/
theorem interp_sound (p : D.Param) (Γ : CallbackImpl → Payload D → Prog D) (n : ℕ) :
    ∀ f ev, Between (ExtendsSound p) (RestoresSound p) ((interp Γ n : Interp D B).call f ev) := by
  induction n with
  | zero =>
    intro f ev w
    exact ⟨(sound_composable p).weaken ((sound_composable p).refl w), fun h => Bool.noConfusion h⟩
  | succ n ih =>
    exact fun f ev => (sound_reports p).runProg (interp Γ n) (interp Γ n) (fun _ => True)
      (fun c _ => exec_sound ih c) (Γ f ev).all_true

/-! ### The two paths agree -/

/-- Two writes to `p` end the same way and leave the same value, value origin, lock key and callback
lists, the same other parameters and the same broker, and cause the same invocations and reports. -/
structure SameWrite (p : D.Param) (r r' : Outcome Report Bool × World D B) : Prop where
  outcome : r.1 = r'.1
  value : (r.2.param p).mValue = (r'.2.param p).mValue
  origin : ((r.2.param p).mValueOrigin == (r'.2.param p).mValueOrigin) = true
  lock : (r.2.param p).mLockPwd = (r'.2.param p).mLockPwd
  callbacks : (r.2.param p).callbacks = (r'.2.param p).callbacks
  others : ∀ q, q ≠ p → r.2.param q = r'.2.param q
  broker : r.2.store.broker = r'.2.store.broker
  observed : r.2.trace.filter TraceEvent.plain = r'.2.trace.filter TraceEvent.plain

section

omit [CciBrokerIf B D.BrokerHandle D.CciValue]

/-- The slow path of a parameter whose fast path is open. -/
theorem setRawValue_quiet {p : D.Param} {w : World D B} (hs : FastFlagsSound p (w.param p))
    (hidle : (w.param p).oncall .preWrite = false) (hf : (w.param p).fastWrite = true) (I : Interp D B) (v : D.Value p) (o : CciOriginator) :
    ∃ t, setRawValue I p v none o w = (.ok true, t) ∧
      t.store = (w.setParam p { stored v o (w.param p) with
        fastWrite := fastWriteAllowed p o (stored v o (w.param p)) }).store ∧
      t.trace.filter TraceEvent.plain = w.trace.filter TraceEvent.plain := by
  obtain ⟨hm, hl, hpre, hpost⟩ := hs.write hf
  have hgate : writeRefusal p none (w.param p) = none := by
    simp only [writeRefusal, hm, hl, Bool.false_eq_true, if_false, reduceCtorEq]
  have hpass := preWriteCallback_quiet hidle hpre I v o
  obtain ⟨t, ht, hstore, htrace⟩ :=
    commit_quiet (w := w.record (.dispatch p .preWrite w.stack)) hpost I v o (w.param p).mValue
  have hparam : t.param p = stored v o (w.param p) := by
    have h := congrArg (fun s : Store D B => s.params p) hstore
    exact h.trans (World.param_setParam _ p _)
  refine ⟨t.setParam p { t.param p with fastWrite := fastWriteAllowed p o (t.param p) }, ?_, ?_, ?_⟩
  · rw [setRawValue_eq, hgate]
    exact (rawWrite_passed hpass).trans (finishWrite_ok ht)
  · rw [hparam]
    simp only [World.setParam, hstore, World.store_record, Function.update_idem, World.param_record]
  · rw [World.trace_setParam, htrace, World.trace_record, List.filter_append]
    exact List.append_nil _

/-- In a sound state the owner's write has the same effect on both paths. -/
theorem FastWriteSound.sameWrite {p : D.Param} {w : World D B} (hs : FastWriteSound p (w.param p))
    (I : Interp D B) (v : D.Value p) :
    SameWrite p (setValue I p v w) (setRawValue I p v none (w.param p).mOriginator w) := by
  cases hf : (w.param p).fastWrite with
  | false =>
    rw [setValue_slow hf]
    exact ⟨rfl, rfl, BEq.rfl, rfl, rfl, fun _ _ => rfl, rfl, rfl⟩
  | true =>
    obtain ⟨t, ht, hstore, htrace⟩ := setRawValue_quiet hs.flags (hs.idle hf) hf I v
      (w.param p).mOriginator
    have hparam : ∀ q, t.param q = (w.setParam p { stored v (w.param p).mOriginator (w.param p) with
        fastWrite := fastWriteAllowed p (w.param p).mOriginator
          (stored v (w.param p).mOriginator (w.param p)) }).param q := fun q =>
      congrArg (fun s : Store D B => s.params q) hstore
    rw [ht, setValue_fast hf]
    refine ⟨rfl, ?_, ?_, ?_, ?_, fun q hq => ?_, ?_, htrace.symm⟩
    · rw [hparam, World.param_setParam, World.param_setParam]
      rfl
    · rw [hparam, World.param_setParam, World.param_setParam]
      exact hs.origin hf
    · rw [hparam, World.param_setParam, World.param_setParam]
      rfl
    · rw [hparam, World.param_setParam, World.param_setParam]
      rfl
    · rw [hparam, World.param_setParam_of_ne _ _ hq, World.param_setParam_of_ne _ _ hq]
    · rw [hstore]
      rfl

end

/-- A write that went through left the owner as value origin. -/
theorem setValue_own {I : Interp D B} {p : D.Param}
    (hcall : ∀ f ev, Between (ExtendsSound p) (RestoresSound p) (I.call f ev)) {w t : World D B}
    (hs : FastWriteSound p (w.param p)) {v : D.Value p}
    (hrun : setValue I p v w = (.ok true, t)) (hk : KeptOwner p t) : OwnOrigin (t.param p) := by
  cases hf : (w.param p).fastWrite with
  | true =>
    rw [setValue_fast hf] at hrun
    cases hrun
    rw [World.param_setParam]
    exact hs.origin hf
  | false =>
    rw [setValue_slow hf, setRawValue_eq] at hrun
    cases hgate : writeRefusal p none (w.param p) with
    | some r =>
      rw [hgate] at hrun
      have hrefuse : refuse r w = (.ok true, t) := hrun
      rw [refuse_run] at hrefuse
      split at hrefuse <;> cases hrefuse
    | none =>
      rw [hgate] at hrun
      have hraw : rawWrite I p v (w.param p).mOriginator w = (.ok true, t) := hrun
      obtain ⟨hX, hR⟩ := (sound_closed hcall).preWriteCallback trivial v (w.param p).mOriginator w
      rcases hpre : preWriteCallback I p v (w.param p).mOriginator w with ⟨b | e | _ | _, t₁⟩ <;>
        rw [hpre] at hX hR
      · cases b with
        | false =>
          rw [rawWrite_stopped hpre (by simp)] at hraw
          cases hraw
        | true =>
          rw [rawWrite_passed hpre] at hraw
          obtain ⟨-, hRc⟩ := commit_sound hcall v (w.param p).mOriginator (t₁.param p).mValue t₁
          rcases hc : commit I p v (w.param p).mOriginator (t₁.param p).mValue t₁ with
            ⟨_ | e | _ | _, u⟩ <;> rw [hc] at hRc
          · rw [finishWrite_ok hc] at hraw
            cases hraw
            have hku : KeptOwner p u := hk
            have hafter := (hR rfl).2 (hku.of_extends (hRc rfl).1.toExtends) hs
            have hown := ((hRc rfl).2 hku hafter.param).own (by
              rw [(hR rfl).1.originator]
              exact BEq.rfl)
            rw [World.param_setParam]
            exact hown
          · rw [finishWrite, Eff.bind_run_throw hc] at hraw
            cases hraw
          · rw [finishWrite, Eff.bind_run, hc] at hraw
            cases hraw
          · rw [finishWrite, Eff.bind_run, hc] at hraw
            cases hraw
      · rw [rawWrite, Eff.bind_run_throw hpre] at hraw
        cases hraw
      · rw [rawWrite, Eff.bind_run, hpre] at hraw
        cases hraw
      · rw [rawWrite, Eff.bind_run, hpre] at hraw
        cases hraw

/-- Commands that store under no originator but the owner. -/
def Cmd.ownersOnly : Cmd D → Bool
  | .handleSetValue .. | .setCciValue .. | .reset .. => false
  | _ => true

theorem keepsOwner_of_ownersOnly (p : D.Param) {c : Cmd D} (hc : c.ownersOnly = true)
    (s : Store D B) : TraceEvent.KeepsOwner p (.step c s : TraceEvent D B) := by
  have hw : ¬c.WritesForeign p s := fun h => by cases c <;> first | exact h | cases hc
  have hr : ¬c.ResetsForeign p s := fun h => by cases c <;> first | exact h | cases hc
  exact ⟨fun h => absurd h (not_or.2 ⟨hw, hr⟩), fun h => absurd h hr⟩

/-- **The fast write path equals the slow write path** in every run in which no foreign `reset()` is
made while `fast_write` is set and nothing foreign is stored from inside the parameter's own
post-write callbacks: in every store that client code can look at, the owner's `set_value` has the
effect of `set_raw_value`, and if it goes through, the value origin is the owner. -/
theorem fast_write_equals_slow_write (p : D.Param) (Γ : CallbackImpl → Payload D → Prog D) (n : ℕ)
    {w₀ w : World D B} (h₀ : w₀.Initial) {cs : List (Cmd D)} (hrun : Calls (interp Γ n) w₀ cs w)
    (c : Cmd D) (hsteps : ∀ e ∈ (exec (interp Γ n) c w).2.trace, e.KeepsOwner p)
    {u : World D B} (hu : u.store ∈ (exec (interp Γ n) c w).2.recorded) (v : D.Value p) :
    (∀ I : Interp D B,
      SameWrite p (setValue I p v u) (setRawValue I p v none (u.param p).mOriginator u)) ∧
    ∀ (m : ℕ) (t : World D B), setValue (interp Γ m) p v u = (.ok true, t) →
      (∀ e ∈ t.trace, e.KeepsOwner p) →
        ((t.param p).mValueOrigin == (t.param p).mOriginator) = true := by
  have hbetween : ∀ c : Cmd D, Between (ExtendsSound p) (RestoresSound p) (exec (interp Γ n : Interp D B) c) :=
    fun c => exec_sound (interp_sound p Γ n) c
  have hbefore : RestoresSound p w₀ w :=
    hrun.relates (sound_composable p) fun c _ => hbetween c
  have hall := (sound_composable p).after hbefore (hbetween c w).1
  have hstart : RecordedSound p w₀ := by
    intro e he
    rw [h₀.2.2] at he
    cases he
  have hrecorded := hall.2 hsteps (h₀.1 p).fastWriteSound hstart
  obtain ⟨e, he, hes⟩ := List.mem_filterMap.1 hu
  have hs : FastWriteSound p (u.param p) := hrecorded e he u.store hes
  exact ⟨fun I => hs.sameWrite I v, fun m t ht hk => setValue_own (interp_sound p Γ m) hs ht hk⟩

/-- After an owner's write and a preset the fast path is open, and equal to the slow path. -/
theorem fast_write_equals_slow_write_preset :
    let I : Interp (natDesign Unit true) (ConsumingBroker Unit ℕ) := interp (fun _ _ => .ret true) 0
    let w₀ := natWorld true (fun _ => "top.p") (fun _ => 1) (.named "owner") {}
    let w := (exec I (.setValue () (1 : ℕ)) w₀).2
    let u := (exec I (.setPresetCciValue () "top.p" (7 : ℕ) (.named "tool")) w).2
    (u.param ()).fastWrite = true ∧
      SameWrite () (setValue I () (3 : ℕ) u) (setRawValue I () (3 : ℕ) none (.named "owner") u) := by
  intro I w₀ w u
  have hrun : Calls I w₀ [.setValue () (1 : ℕ),
      .setPresetCciValue () "top.p" (7 : ℕ) (.named "tool")] u := .cons rfl (.cons rfl (.nil _))
  have howners : (exec I (.isLocked ()) u).2.trace.all (fun e => match e with
      | .step c _ => c.ownersOnly
      | _ => true) = true := rfl
  have hsteps : ∀ e ∈ (exec I (.isLocked ()) u).2.trace, e.KeepsOwner () := by
    intro e he
    have hc := List.all_eq_true.1 howners e he
    cases e with
    | step c s => exact keepsOwner_of_ownersOnly () hc s
    | _ => trivial
  refine ⟨rfl, (fast_write_equals_slow_write () _ 0 (natWorld_initial _ _ _ _ _) hrun (.isLocked ())
    hsteps (u := u) ?_ (3 : ℕ)).1 I⟩
  exact List.mem_filterMap.2 ⟨.step (.isLocked ()) u.store,
    List.mem_append_left _ (List.mem_append_right _ (List.mem_singleton_self _)), rfl⟩

/-- After a `reset()` to the preset of a tool, `set_value` leaves the tool as value origin, where
`set_raw_value` records the owner. -/
theorem fast_write_keeps_foreign_origin :
    let I : Interp (natDesign Unit true) (ConsumingBroker Unit ℕ) := interp (fun _ _ => .ret true) 0
    let w₀ := natWorld true (fun _ => "top.p") (fun _ => 1) (.named "owner") {}
    let cs : List (Cmd (natDesign Unit true)) := [.setValue () (1 : ℕ),
      .setPresetCciValue () "top.p" (7 : ℕ) (.named "tool"), .reset ()]
    let u := states (exec I) w₀ cs
    Calls I w₀ cs u ∧ (setValue I () (3 : ℕ) u).1 = .ok true ∧
      ((setValue I () (3 : ℕ) u).2.param ()).mValueOrigin = .named "tool" ∧
      ((setRawValue I () (3 : ℕ) none (.named "owner") u).2.param ()).mValueOrigin =
        .named "owner" ∧
      ¬SameWrite () (setValue I () (3 : ℕ) u)
        (setRawValue I () (3 : ℕ) none (.named "owner") u) := by
  intro I w₀ cs u
  exact ⟨.cons (by decide +kernel) (.cons (by decide +kernel) (.cons (by decide +kernel) (.nil _))),
    by decide +kernel, by decide +kernel, by decide +kernel,
    fun h => absurd h.origin (by decide +kernel)⟩

/-- A foreign `reset()` while `fast_write` is set always makes the two paths differ. -/
theorem reset_foreign_breaks {p : D.Param} {w : World D B} (hs : FastWriteSound p (w.param p))
    (hf : (w.param p).fastWrite = true) (hreset : Cmd.ResetsForeign p w.store (.reset p))
    (I : Interp D B) (v : D.Value p) :
    ∃ t, reset I p w = (.ok true, t) ∧
      ¬SameWrite p (setValue I p v t) (setRawValue I p v none (t.param p).mOriginator t) := by
  simp only [Cmd.ResetsForeign, show w.store.params p = w.param p from rfl, true_and] at hreset
  obtain ⟨hl, hh, hconv, hpre, ho⟩ := hreset
  obtain ⟨-, -, hvec, hvec'⟩ := hs.flags.write hf
  obtain ⟨w', hx, hstore⟩ := cciValueGet_of_converts hconv w
  generalize (D.unpack p (D.uninit p) (CciBrokerIf.getPresetCciValue w.store.broker
    (w.store.mBrokerHandle p) (w.param p).mName)).2 = x at hx
  have hw' : w'.param p = w.param p := congrArg (fun s : Store D B => s.params p) hstore
  obtain ⟨t, ht, htstore, -⟩ := commit_quiet (w := w'.record (.dispatch p .preWrite w'.stack))
    (by rw [World.param_record, hw']; exact hvec') I x
    (CciBrokerIf.getPresetValueOrigin w.store.broker (w.store.mBrokerHandle p) (w.param p).mName)
    (w.param p).mValue
  have hparam : t.param p = stored x (CciBrokerIf.getPresetValueOrigin w.store.broker
      (w.store.mBrokerHandle p) (w.param p).mName) (w.param p) := by
    have h := (congrArg (fun s : Store D B => s.params p) htstore).trans (World.param_setParam _ p _)
    rw [World.param_record, hw'] at h
    exact h
  have hpass := preWriteCallback_quiet (w := w') (by rw [hw']; exact hpre) (by rw [hw']; exact hvec) I x
    (CciBrokerIf.getPresetValueOrigin w.store.broker (w.store.mBrokerHandle p) (w.param p).mName)
  refine ⟨t, ?_, fun hsame => ?_⟩
  · have hpreset : presetCciValue I p
        (CciBrokerIf.getPresetCciValue w.store.broker (w.store.mBrokerHandle p) (w.param p).mName)
        (CciBrokerIf.getPresetValueOrigin w.store.broker (w.store.mBrokerHandle p) (w.param p).mName)
        w = (.ok true, t) := by
      rw [presetCciValue_eq, Eff.bind_run_ok hx, applyValue_passed hpass, Eff.bind_run_ok ht]
      rfl
    have hunlocked : ¬CciParamUntyped.isLocked (w.param p) = true := fun h =>
      Bool.false_ne_true (hl.symm.trans h)
    rw [reset_eq, if_neg hunlocked, if_pos hh, Eff.bind_run_ok hpreset]
    rfl
  · -- the flag is still set, so `set_value` keeps the origin that the preset brought
    have hfast : (t.param p).fastWrite = true := by
      rw [hparam]
      exact hf
    have hflags : FastFlagsSound p (t.param p) := by
      rw [hparam]
      exact (hs.flags.update (.value _ x)).update (.origin _ _)
    have hidle : (t.param p).oncall .preWrite = false := by
      rw [hparam]
      exact hpre
    obtain ⟨u, hu, hustore, -⟩ := setRawValue_quiet hflags hidle hfast I v (t.param p).mOriginator
    have hslow : (u.param p).mValueOrigin = (t.param p).mOriginator := by
      have h := congrArg (fun s : Store D B => (s.params p).mValueOrigin) hustore
      exact h.trans (congrArg CciParam.mValueOrigin (World.param_setParam _ p _))
    have horigin := hsame.origin
    rw [setValue_fast hfast, hu, World.param_setParam, hslow, hparam] at horigin
    exact Bool.false_ne_true (ho.symm.trans horigin)

end Cci
