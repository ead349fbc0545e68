import Cci.Cfg.Provenance
import Cci.Utils.ConsumingBroker

/-!
# Value status queries

The documentation of `is_default_value` and `is_preset_value` speaks about how the present value was
put in place; the code compares values.

* `World.withHistory` — the world of histories a run starts in;
* `StatusReflects` — what the documentation says;
* `ToldApart` — where the comparison cannot be mistaken;
* `value_status` — these agree in every state of every run.
-/

namespace Cci

open Effect CciParamTyped

variable {D : Design} {B : Type}

/-- The default values of the parameters. -/
def World.defaults (w : World D B) (p : D.Param) : D.Value p := (w.param p).mDefaultValue

/-- How a parameter came by its first value: its constructor applied a preset, or took the default. -/
def Source.constructed (applied : D.Param → Option D.CciValue) (p : D.Param) : Source D p :=
  match applied p with
  | some c => .preset c
  | none => .default

/-- The object with the history of its value in place of the value. -/
def CciParam.withHistory {p : D.Param} (q : CciParam (D.Value p)) (src : Source D p) :
    CciParam (Source D p) :=
  { q.map fun _ => src with mDefaultValue := .default }

/-- The world with the histories of its values in their place. -/
def World.withHistory (w : World D B) (src : (p : D.Param) → Source D p) :
    World (D.sourced w.defaults) (SourcedBroker B) where
  store := {
    params := fun p => (w.param p).withHistory (src p)
    mBrokerHandle := w.store.mBrokerHandle
    broker := ⟨w.store.broker⟩ }

/-- A world in which nothing has happened yet is what its world of histories is seen as. -/
theorem World.erase_withHistory {w : World D B} (hw : w.Initial) {src : (p : D.Param) → Source D p}
    (hvalue : ∀ p, (w.param p).mValue = (src p).value w.defaults) :
    (w.withHistory src).erase = w := by
  have hparams : (fun p => ((w.param p).withHistory (src p)).map (Source.value w.defaults)) =
      w.store.params := by
    funext p
    show { w.param p with
      mValue := (src p).value w.defaults, mDefaultValue := (w.param p).mDefaultValue } = _
    rw [← hvalue p]
    rfl
  obtain ⟨-, hstack, htrace⟩ := hw
  rcases w with ⟨⟨params, handles, broker⟩, stack, trace⟩
  subst hstack htrace
  exact congrArg (fun ps => (⟨⟨ps, handles, broker⟩, [], []⟩ : World D B)) hparams

variable {dflt : (p : D.Param) → D.Value p}

/-- The stores seen in a run over histories are those of the run it is seen as. -/
theorem World.visible_erase (w : World (D.sourced dflt) (SourcedBroker B)) :
    w.erase.visible = w.visible.map Store.erase := by
  have hrecorded : w.erase.recorded = w.recorded.map Store.erase := by
    show (w.trace.map TraceEvent.erase).filterMap TraceEvent.store? = _
    rw [List.filterMap_map, World.recorded, List.map_filterMap]
    refine List.filterMap_congr fun e _ => ?_
    cases e <;> rfl
  rw [World.visible, World.visible, List.map_append, hrecorded]
  rfl

/-! ### The queries -/

variable [CciBrokerIf B D.BrokerHandle D.CciValue]

/-- The value of the preset that the broker has for `p`, if it has one that converts. -/
def Store.presetValue (s : Store D B) (p : D.Param) : Option (D.Value p) :=
  let h := s.mBrokerHandle p
  let nm := (s.params p).mName
  if CciBrokerIf.hasPresetValue s.broker h nm then
    let r := D.unpack p (D.uninit p) (CciBrokerIf.getPresetCciValue s.broker h nm)
    if r.1 then some r.2 else none
  else none

theorem isPresetValue_iff (s : Store D B) (p : D.Param) :
    isPresetValue { store := s } p = true ↔
      ∃ u, s.presetValue p = some u ∧ D.valueEq p u (s.params p).mValue = true := by
  let r := D.unpack p (D.uninit p)
    (CciBrokerIf.getPresetCciValue s.broker (s.mBrokerHandle p) (s.params p).mName)
  by_cases hhas : CciBrokerIf.hasPresetValue s.broker (s.mBrokerHandle p) (s.params p).mName = true
  · have hquery : isPresetValue { store := s } p =
        (r.1 && D.valueEq p r.2 (s.params p).mValue) := if_pos hhas
    have hpreset : s.presetValue p = if r.1 then some r.2 else none := if_pos hhas
    rw [hquery, hpreset]
    cases r.1 <;> simp
  · have hquery : isPresetValue { store := s } p = false := if_neg hhas
    have hpreset : s.presetValue p = none := if_neg hhas
    rw [hquery, hpreset]
    simp

/-- What the documentation says of the store: `is_default_value()` is true exactly when the present
value is the default put in place by the constructor or a reset, and `is_preset_value()` exactly when
it is a preset of the broker put in place by one of them; any write that went through since makes the
answer false. -/
def StatusReflects (s : Store (D.sourced dflt) (SourcedBroker B)) (p : D.Param) : Prop :=
  (isDefaultValue { store := s.erase } p = true ↔ (s.params p).mValue = .default) ∧
    (isPresetValue { store := s.erase } p = true ↔ ∃ c, (s.params p).mValue = .preset c)

/-- Nothing that was put in place from elsewhere is taken for the default or for the preset that the
broker has now, and what was put in place from there is. -/
def ToldApart (dflt : (p : D.Param) → D.Value p) (s : Store D B) (p : D.Param) : Source D p → Prop
  | .default => D.valueEq p (dflt p) (dflt p) = true ∧
      ∀ u, s.presetValue p = some u → D.valueEq p u (dflt p) = false
  | .preset c => D.valueEq p (dflt p) (D.unpack p (D.uninit p) c).2 = false ∧
      ∃ u, s.presetValue p = some u ∧ D.valueEq p u (D.unpack p (D.uninit p) c).2 = true
  | .write v => D.valueEq p (dflt p) v = false ∧
      ∀ u, s.presetValue p = some u → D.valueEq p u v = false

/-- The default value is never assigned. -/
def KeepsDefault (s : Store (D.sourced dflt) (SourcedBroker B)) : Prop :=
  ∀ p, (s.params p).mDefaultValue = .default

theorem toldApart_iff (s : Store D B) {p : D.Param} (src : Source D p) :
    ((D.valueEq p (dflt p) (src.value dflt) = true ↔ src = .default) ∧
      ((∃ u, s.presetValue p = some u ∧ D.valueEq p u (src.value dflt) = true) ↔
        ∃ c, src = .preset c)) ↔ ToldApart dflt s p src := by
  cases src with
  | default => simp [ToldApart, Source.value]
  | preset c => simp [ToldApart, Source.value]
  | write v => simp [ToldApart, Source.value]

theorem statusReflects_iff {s : Store (D.sourced dflt) (SourcedBroker B)} (hs : KeepsDefault s)
    (p : D.Param) : StatusReflects s p ↔ ToldApart dflt s.erase p (s.params p).mValue := by
  have hdefault : isDefaultValue { store := s.erase } p =
      D.valueEq p (dflt p) ((s.params p).mValue.value dflt) := by
    show D.valueEq p (Source.value dflt (s.params p).mDefaultValue) _ = _
    rw [hs p]
    rfl
  rw [StatusReflects, hdefault, isPresetValue_iff]
  exact toldApart_iff s.erase (s.params p).mValue

/-! ### Runs -/

/-- No operation assigns the default value. -/
theorem Update.mDefaultValue {p : D.Param} {q q' : CciParam (D.Value p)} (h : Update p q q') :
    q'.mDefaultValue = q.mDefaultValue := by
  cases h with
  | lock pwd =>
    unfold CciParamTyped.lock CciParamUntyped.lock
    split <;> rfl
  | unlock pwd =>
    unfold CciParamUntyped.unlock
    split <;> rfl
  | unregister k cb o =>
    unfold CciParamUntyped.unregisterCallback
    split <;> rfl
  | oncall | value | origin | fastWrite | fastRead | register | unregisterAll => rfl

theorem keepsDefault_visible {Γ : CallbackImpl → Payload (D.sourced dflt) → Prog (D.sourced dflt)}
    {n : ℕ} {cs : List (Cmd (D.sourced dflt))} {w t : World (D.sourced dflt) (SourcedBroker B)}
    (hrun : Calls (interp Γ n) w cs t) (hw : ∀ s ∈ w.visible, KeepsDefault s) :
    ∀ s ∈ t.visible, KeepsDefault s := by
  have hinv : StepInvariant fun w : World (D.sourced dflt) (SourcedBroker B) =>
      ∀ s ∈ w.visible, KeepsDefault s :=
    visible_invariant (D := D.sourced dflt) (S := fun _ q => q.mDefaultValue = Source.default)
      fun _ _ _ h hq => h.mDefaultValue.trans hq
  exact hrun.keeps (fun c _ => hinv.keeps_exec (hinv.keeps_interp Γ n) c) hw

/-- **Value status.**  Take any run from the construction of the parameters, and let `applied` be the
presets their constructors applied.  It is what a run over histories is seen as, in which a write puts
`write v` in place, a reset or a constructor the default or a preset of the broker.  In every store
that client code can look at, the two queries reflect the history of the value if and only if what was
put in place is told apart by its value: what is not the default compares different from it, what is
not a preset compares different from the preset that the broker has now, and the default and the preset
that was put in place compare equal to the default and to the present preset. -/
theorem value_status (Γ : CallbackImpl → Payload D → Prog D) (n : ℕ) {w t : World D B}
    (hw : w.Initial) (applied : D.Param → Option D.CciValue)
    (hvalue : ∀ p, (w.param p).mValue = (Source.constructed applied p).value w.defaults)
    {cs : List (Cmd D)} (hrun : Calls (interp Γ n) w cs t) :
    ∃ t', Calls (interp (sourcedBodies w.defaults Γ) n)
        (w.withHistory (Source.constructed applied)) (cs.map (Cmd.sourced w.defaults)) t' ∧
      t'.erase = t ∧ t'.visible.map Store.erase = t.visible ∧
      ∀ s ∈ t'.visible, ∀ p : D.Param, StatusReflects s p ↔
        ToldApart w.defaults s.erase p (s.params p).mValue := by
  rw [← World.erase_withHistory hw hvalue] at hrun
  obtain ⟨t', ht', hrun'⟩ := hrun.sourced
  refine ⟨t', hrun', ht', by rw [← ht', World.visible_erase], fun s hs p => ?_⟩
  have hstart : ∀ s ∈ (w.withHistory (Source.constructed applied)).visible, KeepsDefault s := by
    intro s hs p
    rw [List.mem_singleton.1 hs]
    rfl
  exact statusReflects_iff (keepsDefault_visible hrun' hstart s hs) p

/-- A parameter with the default 0, written once. -/
theorem value_status_written :
    let w : World (natDesign Unit true) (ConsumingBroker Unit (natDesign Unit true).CciValue) :=
      natWorld true (fun _ => "top.p") (fun _ => 1) (.named "owner") {}
    let I : Interp (natDesign Unit true) (ConsumingBroker Unit (natDesign Unit true).CciValue) :=
      interp (fun _ _ => .ret true) 1
    let t := (exec I (.setValue () (7 : ℕ)) w).2
    ∃ t', Calls (interp (sourcedBodies w.defaults fun _ _ => .ret true) 1)
        (w.withHistory (Source.constructed fun _ => none))
        ([.setValue () (7 : ℕ)].map (Cmd.sourced w.defaults)) t' ∧
      t'.erase = t ∧ t'.visible.map Store.erase = t.visible ∧
      ∀ s ∈ t'.visible, ∀ p : Unit, StatusReflects s p ↔
        ToldApart w.defaults s.erase p (s.params p).mValue := by
  intro w I t
  have hrun : Calls I w [.setValue () (7 : ℕ)] t := .cons rfl (.nil _)
  exact value_status (fun _ _ => .ret true) 1 (natWorld_initial _ _ _ _ _) (fun _ => none)
    (fun _ => rfl) hrun

/-- The default 0 is overwritten by 1 and written again: the value is taken for the default. -/
theorem value_status_forgets :
    let w : World (natDesign Unit true) (ConsumingBroker Unit (natDesign Unit true).CciValue) :=
      natWorld true (fun _ => "top.p") (fun _ => 1) (.named "owner") {}
    let I : Interp ((natDesign Unit true).sourced w.defaults)
        (SourcedBroker (ConsumingBroker Unit (natDesign Unit true).CciValue)) :=
      interp (sourcedBodies w.defaults fun _ _ => .ret true) 1
    let w' := w.withHistory (Source.constructed fun _ => none)
    let cs : List (Cmd (natDesign Unit true)) := [.setValue () (1 : ℕ), .setValue () (0 : ℕ)]
    let t' := states (exec I) w' (cs.map (Cmd.sourced w.defaults))
    Calls I w' (cs.map (Cmd.sourced w.defaults)) t' ∧
      (t'.store.params ()).mValue = .write (0 : ℕ) ∧
      isDefaultValue { store := t'.store.erase } () = true ∧ ¬StatusReflects t'.store () := by
  intro w I w' cs t'
  have hvalue : (t'.store.params ()).mValue = .write (0 : ℕ) := rfl
  have hquery : isDefaultValue { store := t'.store.erase } () = true := rfl
  refine ⟨.cons rfl (.cons rfl (.nil _)), hvalue, hquery, fun h => ?_⟩
  have hdefault : (t'.store.params ()).mValue = .default := h.1.1 hquery
  rw [hvalue] at hdefault
  cases hdefault

end Cci
