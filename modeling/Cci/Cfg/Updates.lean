import Cci.Cfg.Closure

/-!
# What an operation can do to a parameter object

Every operation changes a parameter object by a sequence of the atomic updates of `Update`, and
the rest of the world only by recording events, by the ghost stack and by setting presets.  An
invariant of these steps is an invariant of every command, with callbacks calling back in any way.

* `Update` — the atomic updates;
* `StepInvariant` — a predicate on worlds kept by each atomic step;
* `StepInvariant.keeps_exec` — then every command keeps it, `keeps_interp` for bodies that are
  programs;
* `visible_invariant` — a predicate on parameter objects kept by `Update` holds in every store
  that client code can look at.
-/

namespace Cci

open Effect CciParamTyped

variable {D : Design} {B : Type}

/-- The atomic updates of a parameter object. -/
inductive Update (p : D.Param) : CciParam (D.Value p) → CciParam (D.Value p) → Prop where
  | oncall (q : CciParam (D.Value p)) (k : CallbackKind) (b : Bool) : Update p q (q.setOncall k b)
  | value (q : CciParam (D.Value p)) (v : D.Value p) : Update p q { q with mValue := v }
  | origin (q : CciParam (D.Value p)) (o : CciOriginator) : Update p q { q with mValueOrigin := o }
  | fastWrite (q : CciParam (D.Value p)) (o : CciOriginator) :
      Update p q { q with fastWrite := fastWriteAllowed p o q }
  | fastRead (q : CciParam (D.Value p)) :
      Update p q { q with fastRead := fastReadAllowed q }
  | lock (q : CciParam (D.Value p)) (pwd : Option ℕ) : Update p q (CciParamTyped.lock pwd q).2
  | unlock (q : CciParam (D.Value p)) (pwd : Option ℕ) :
      Update p q (CciParamUntyped.unlock pwd q).2
  | register (q : CciParam (D.Value p)) (k : CallbackKind) (cb : CallbackHandle)
      (o : CciOriginator) : Update p q (CciParamUntyped.registerCallback k cb o q).2
  | unregister (q : CciParam (D.Value p)) (k : CallbackKind) (cb : CallbackHandle)
      (o : CciOriginator) : Update p q (CciParamUntyped.unregisterCallback k cb o q).2
  | unregisterAll (q : CciParam (D.Value p)) (o : CciOriginator) (k : CallbackKind) :
      Update p q (CciParamUntyped.unregisterAllOf o k q).2

/-- A predicate on worlds that every atomic step keeps. -/
structure StepInvariant (J : World D B → Prop) : Prop where
  update : ∀ w p q, Update p (w.param p) q → J w → J (w.setParam p q)
  step : ∀ w c, J w → J (w.record (.step c w.store))
  done : ∀ w c, J w → J (w.record (.done c w.store))
  record : ∀ w e, e.store? = none → J w → J (w.record e)
  stack : ∀ w st, J w → J { w with stack := st }
  broker : ∀ w b, J w → J { w with store := { w.store with broker := b } }

namespace StepInvariant

variable {J : World D B → Prop} (hJ : StepInvariant J)

include hJ

theorem keeps_modifyParam (p : D.Param) {f : CciParam (D.Value p) → CciParam (D.Value p)}
    (hf : ∀ q, Update p q (f q)) : Keeps J (modifyParam p f : CciM D B Unit) :=
  Keeps.modify fun w hw => hJ.update w p _ (hf _) hw

theorem keeps_scopedTrue {α : Type} (p : D.Param) (k : CallbackKind) {m : CciM D B α}
    (hm : Keeps J m) : Keeps J (scopedTrue p k m) := by
  refine Keeps.bind (Keeps.modify fun w hw => ?_) fun _ => Keeps.finalizing (fun w hw => ?_) hm
  · exact hJ.stack _ _ (hJ.record _ _ rfl (hJ.update w p _ (.oncall _ k true) hw))
  · exact hJ.stack _ _ (hJ.update w p _ (.oncall _ k false) hw)

theorem reports : Reports fun α (m _ : CciM D B α) => Keeps J m where
  toPlumbing := Keeps.plumbing J
  report r := Keeps.modify fun w hw => hJ.record w (.report r) rfl hw

theorem closed {I : Interp D B} (hcall : ∀ f ev, Keeps J (I.call f ev)) :
    Closed I I (fun _ _ => True) (fun _ m _ => Keeps J m) (fun _ m _ => Keeps J m) where
  outer := hJ.reports
  inner := hJ.reports
  call := hcall
  invoked p k _ entry ev := Keeps.modify fun w hw => hJ.record w (.invoked p k entry ev) rfl hw
  guarded p k init skip _ hact := Keeps.bind (Keeps.gets _) fun _ => Keeps.ite (Keeps.pure skip)
    (hJ.keeps_scopedTrue p k (Keeps.forEach hact _ _ init))
  fastRead p := hJ.keeps_modifyParam p fun q => .fastRead q

theorem stores (p : D.Param) : Stores (fun α (m _ : CciM D B α) => Keeps J m) p where
  value v := hJ.keeps_modifyParam p fun q => .value q v
  origin o := hJ.keeps_modifyParam p fun q => .origin q o
  fastWrite o := hJ.keeps_modifyParam p fun q => .fastWrite q o

theorem administers [CciBrokerIf B D.BrokerHandle D.CciValue] :
    Administers fun α (m _ : CciM D B α) => Keeps J m where
  lock p pwd := hJ.keeps_modifyParam p fun q => .lock q pwd
  unlock p pwd := hJ.keeps_modifyParam p fun q => .unlock q pwd
  setPreset := hJ.reports.setPreset fun b => Keeps.modify fun w hw => hJ.broker w b hw

/-- `unregister_all_callbacks` is four updates, one for each list. -/
theorem unregisterAll (p : D.Param) (o : CciOriginator) (w : World D B) (hw : J w) :
    J (w.setParam p (CciParamUntyped.unregisterAllCallbacks o (w.param p)).2) := by
  have h₁ := hJ.update w p _ (.unregisterAll _ o .preWrite) hw
  have h₂ := hJ.update _ p _ (.unregisterAll _ o .postWrite) h₁
  have h₃ := hJ.update _ p _ (.unregisterAll _ o .preRead) h₂
  have h₄ := hJ.update _ p _ (.unregisterAll _ o .postRead) h₃
  simpa only [World.param_setParam, World.setParam_setParam,
    CciParamUntyped.unregisterAllCallbacks] using h₄

theorem registers : Registers fun α (m _ : CciM D B α) => Keeps J m where
  register p k cb o := hJ.keeps_modifyParam p fun q => .register q k cb o
  registerOwn p k cb := hJ.keeps_modifyParam p fun q => .register q k cb q.mOriginator
  unregister p k cb o := hJ.keeps_modifyParam p fun q => .unregister q k cb o
  unregisterAll p o := Keeps.modify (hJ.unregisterAll p o)

variable [CciBrokerIf B D.BrokerHandle D.CciValue]

/-- Every command keeps a step invariant that the callback bodies keep. -/
theorem keeps_exec {I : Interp D B} (hcall : ∀ f ev, Keeps J (I.call f ev)) (c : Cmd D) :
    Keeps J (exec I c) := by
  refine Keeps.bind (Keeps.modify fun w hw => hJ.step w c hw) fun _ =>
    Keeps.finalizing (fun w hw => hJ.done w c hw) ?_
  exact (hJ.closed hcall).run_all (fun _ => ⟨trivial, trivial⟩) c
    (fun p _ => ⟨hJ.stores p, trivial, trivial⟩) hJ.administers hJ.registers

/-- With bodies that are programs, nested to any depth. -/
theorem keeps_interp (Γ : CallbackImpl → Payload D → Prog D) (n : ℕ) :
    ∀ f ev, Keeps J ((interp Γ n : Interp D B).call f ev) := by
  induction n with
  | zero => exact fun _ _ => Keeps.diverge
  | succ n ih =>
    exact fun f ev => hJ.reports.runProg (interp Γ n) (interp Γ n) (fun _ => True)
      (fun c _ => hJ.keeps_exec ih c) (Γ f ev).all_true

end StepInvariant

/-- A predicate on parameter objects that the atomic updates keep holds in all visible stores. -/
theorem visible_invariant {S : (p : D.Param) → CciParam (D.Value p) → Prop}
    (hS : ∀ p q q', Update p q q' → S p q → S p q') :
    StepInvariant fun w : World D B => ∀ s ∈ w.visible, ∀ p, S p (s.params p) := by
  have hstore : ∀ (w w' : World D B), w'.trace = w.trace → (∀ p, S p (w'.param p)) →
      (∀ s ∈ w.visible, ∀ p, S p (s.params p)) → ∀ s ∈ w'.visible, ∀ p, S p (s.params p) := by
    intro w w' htr hw' hw s hs p
    simp only [World.visible, World.recorded, htr, List.mem_append, List.mem_singleton] at hs
    rcases hs with hs | rfl
    · exact hw s (by simp only [World.visible, World.recorded, List.mem_append]; exact .inl hs) p
    · exact hw' p
  have hnow : ∀ w : World D B, (∀ s ∈ w.visible, ∀ p, S p (s.params p)) →
      ∀ p, S p (w.param p) := by
    intro w hw p
    exact hw w.store w.store_mem_visible p
  have hrec : ∀ (w : World D B) (e : TraceEvent D B), (∀ s, e.store? = some s → s = w.store) →
      (∀ s ∈ w.visible, ∀ p, S p (s.params p)) →
      ∀ s ∈ (w.record e).visible, ∀ p, S p (s.params p) := by
    intro w e he hw s hs p
    simp only [World.visible, World.recorded, World.trace_record, World.store_record, List.filterMap_append,
      List.mem_append, List.mem_singleton] at hs
    rcases hs with (hs | hs) | rfl
    · exact hw s (by simp only [World.visible, World.recorded, List.mem_append]; exact .inl hs) p
    · rw [he s (by simpa using hs)]
      exact hnow w hw p
    · exact hnow w hw p
  exact {
    update := fun w p q hq hw => hstore w _ rfl (fun r => by
      by_cases hr : r = p
      · subst hr
        rw [World.param_setParam]
        exact hS r _ _ hq (hnow w hw r)
      · rw [World.param_setParam_of_ne w q hr]
        exact hnow w hw r) hw
    step := fun w c hw => hrec w _ (fun s hs => by simpa [TraceEvent.store?] using hs.symm) hw
    done := fun w c hw => hrec w _ (fun s hs => by simpa [TraceEvent.store?] using hs.symm) hw
    record := fun w e he hw => hrec w e (fun s hs => by simp [he] at hs) hw
    stack := fun w st hw => hstore w _ rfl (hnow w hw) hw
    broker := fun w b hw => hstore w _ rfl (hnow w hw) hw }

end Cci
