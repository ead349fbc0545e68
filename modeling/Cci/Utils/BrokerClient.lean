import Cci.Utils.BrokerRouting
import Cci.Utils.BrokerCallbacks
import Cci.Utils.Unconsumed

/-!
# What client code sees of a consuming broker

Client code looks at a broker between its operations, and in the create and destroy callbacks, which
run in the middle of `add_param` and `remove_param` and may call the broker again.

* `ConsumingBroker.getCciValue` — the plain operation;
* `BrokerCall`, `BrokerProg`, `clientEnv` — client code: finite programs that go on with whatever
  they have seen so far, as callbacks to any depth;
* `ConsumingBroker.Whole` — what a broker that is not half-updated shows;
* `Halves` — a removal that shows its broker half-updated to its destroy callbacks;
* `whole_throughout` — in a run without such removals every broker that is seen is whole.
-/

namespace Cci

open Effect

variable {P C : Type}

namespace ConsumingBroker

/-- `get_cci_value(parname, originator)`, over `get_cci_value` of a parameter and the effect of an
error report. -/
def getCciValue [Inhabited C] {σ : Type} (b : ConsumingBroker P C)
    (read : P → CciOriginator → Eff Report σ C) (report : Report → Eff Report σ Unit)
    (parname : String) (originator : CciOriginator) : Eff Report σ C :=
  match b.getOrigParam parname with
  | some p => read p originator
  | none =>
      match b.mUnusedValueRegistry[parname]? with
      | some value => pure value
      | none => do
          report (getParamFailed "Unable to find the parameter to get value")
          pure default

/-- It is what the brokers of a chain do for the names that they answer for. -/
theorem ownGetCciValue_eq [Inhabited C] {σ : Type} (env : ChainEnv σ P C) (i : ℕ) (n : String)
    (o : CciOriginator) (s : σ) : env.ownGetCciValue i n o s =
      (env.chain.get s i).getCciValue env.read env.report n o s := rfl

/-- Used presets have a parameter; a preset without one is what `get_cci_value` returns, and it is
listed as unconsumed unless it is ignored. -/
structure Whole [Inhabited C] (b : ConsumingBroker P C) : Prop where
  registered : ∀ n : String, n ∈ b.mUsedValueRegistry → n ∈ b.mParamRegistry
  answered : ∀ n, b.hasPresetValue n = true → b.getOrigParam n = none →
    ∀ (σ : Type) (read : P → CciOriginator → Eff Report σ C) (report : Report → Eff Report σ Unit) o,
      b.getCciValue read report n o = pure (b.getPresetCciValue n)
  listed : ∀ n, b.hasPresetValue n = true → b.getOrigParam n = none →
    (n, b.getPresetCciValue n) ∈ b.getUnconsumedPresetValues ∨
      b.ignores (n, b.getPresetCciValue n) = true

/-- A tidy broker is whole. -/
theorem Tidy.whole [Inhabited C] {b : ConsumingBroker P C} (hb : b.Tidy) : b.Whole := by
  -- A preset whose parameter does not exist is in the unused registry.
  have hunused : ∀ n, b.hasPresetValue n = true → b.getOrigParam n = none →
      b.mUnusedValueRegistry[n]? = some (b.getPresetCciValue n) := by
    intro n hhas hnone
    have hused : b.mUsedValueRegistry[n]? = none := by
      refine Std.ExtTreeMap.getElem?_eq_none fun hn => ?_
      have hreg := hb.registered n hn
      rw [Std.ExtTreeMap.mem_iff_isSome_getElem?] at hreg
      rw [getOrigParam] at hnone
      rw [hnone] at hreg
      cases hreg
    rw [hasPresetValue] at hhas
    simp only [Std.ExtTreeMap.mem_iff_isSome_getElem?, hused, Option.isSome_none,
      Bool.false_eq_true, if_false] at hhas
    rw [getPresetCciValue, hused]
    cases hv : b.mUnusedValueRegistry[n]? with
    | none =>
      rw [hv] at hhas
      simp at hhas
    | some v => rfl
  refine ⟨hb.registered, fun n hhas hnone σ read report o => ?_, fun n hhas hnone => ?_⟩
  · rw [getCciValue, hnone, hunused n hhas hnone]
  · cases hig : b.ignores (n, b.getPresetCciValue n) with
    | true => exact .inr rfl
    | false => exact .inl ((b.mem_getUnconsumedPresetValues n _).2 ⟨hunused n hhas hnone, hig⟩)

end ConsumingBroker

/-! ### Client code -/

/-- The calls client code makes on a broker. -/
inductive BrokerCall (P C : Type) where
  | report (c : ReportCmd P C) : BrokerCall P C
  | registerCallback (k : BrokerCallbackKind) (cb : CallbackHandle) (o : CciOriginator) :
      BrokerCall P C
  | unregisterCallback (k : BrokerCallbackKind) (cb : CallbackHandle) (o : CciOriginator) :
      BrokerCall P C
  | unregisterAllCallbacks (o : CciOriginator) : BrokerCall P C

/-- Where client code can look at the broker: around its calls, and when a callback is invoked. -/
inductive Look (P C : Type) where
  | before (c : BrokerCall P C) (b : ConsumingBroker P C) : Look P C
  | after (c : BrokerCall P C) (b : ConsumingBroker P C) : Look P C
  | inside (held : Held) (par : P) (b : ConsumingBroker P C) : Look P C

/-- The broker that is seen. -/
def Look.broker : Look P C → ConsumingBroker P C
  | .before _ b | .after _ b | .inside _ _ b => b

/-- A broker and, as a ghost, what client code has seen of it so far. -/
structure SeenBroker (P C : Type) where
  broker : ConsumingBroker P C
  looks : List (Look P C) := []

def seenLens (P C : Type) : Lens (SeenBroker P C) (ConsumingBroker P C) where
  get := SeenBroker.broker
  set b s := { s with broker := b }
  get_set _ _ := rfl
  set_get _ := rfl

def SeenBroker.look (l : ConsumingBroker P C → Look P C) (s : SeenBroker P C) : SeenBroker P C :=
  { s with looks := s.looks ++ [l s.broker] }

/-- A finite client program.  After a call it goes on with what came back and all it has seen. -/
inductive BrokerProg (P C : Type) where
  | ret : BrokerProg P C
  | raise : Report → BrokerProg P C
  | cmd : BrokerCall P C → (Except Report Unit → List (Look P C) → BrokerProg P C) → BrokerProg P C

/-- The environments in which client code runs. -/
abbrev ClientEnv (P C : Type) : Type := BrokerEnv (SeenBroker P C) P C

def BrokerCall.run (env : ClientEnv P C) : BrokerCall P C → Eff Report (SeenBroker P C) Unit
  | .report c => c.run env
  | .registerCallback k cb o =>
      env.broker.modify fun b => (b.registerCallback k cb o).2
  | .unregisterCallback k cb o => env.broker.modify fun b => (b.unregisterCallback k cb o).2
  | .unregisterAllCallbacks o => env.broker.modify fun b => (b.unregisterAllCallbacks o).2

/-- A call, and what is seen around it. -/
def BrokerCall.exec (env : ClientEnv P C) (c : BrokerCall P C) : Eff Report (SeenBroker P C) Unit := do
  Eff.modify (SeenBroker.look (.before c))
  Eff.finalizing (SeenBroker.look (.after c)) (c.run env)

def BrokerProg.run (env : ClientEnv P C) : BrokerProg P C → Eff Report (SeenBroker P C) Unit
  | .ret => pure ()
  | .raise r => Eff.raise r
  | .cmd c k => do
      let answer ← Eff.attempt (c.exec env)
      let s ← Eff.get
      BrokerProg.run env (k answer s.looks)

/-- A broker whose create and destroy callbacks are client programs, nested `n` deep. -/
def clientEnv (name : P → String) (throws : Bool)
    (body : Held → P → List (Look P C) → BrokerProg P C) : ℕ → ClientEnv P C
  | 0 => {
      broker := seenLens P C
      name := name
      report := fun r => if throws then Eff.raise r else pure ()
      call := fun _ _ => Eff.diverge
      fuel := 0 }
  | n + 1 => {
      broker := seenLens P C
      name := name
      report := fun r => if throws then Eff.raise r else pure ()
      call := fun held par => do
        Eff.modify (SeenBroker.look (.inside held par))
        let s ← Eff.get
        (body held par s.looks).run (clientEnv name throws body n)
      fuel := n + 1 }

/-! ### Half-updated brokers -/

/-- A removal of a parameter with a used preset, while there are destroy callbacks. -/
def Halves (name : P → String) (b : ConsumingBroker P C) : BrokerCall P C → Prop
  | .report (.call (.removeParam par)) =>
      name par ∈ b.mUsedValueRegistry ∧ b.mDestroyCallbacks ≠ []
  | _ => False

theorem Halves.callbacks {name : P → String} {b : ConsumingBroker P C} {c : BrokerCall P C}
    (h : Halves name b c) : b.mDestroyCallbacks ≠ [] := by
  cases c with
  | report c =>
    cases c with
    | call c =>
      cases c with
      | removeParam par => exact h.2
      | setPresetCciValue | lockPresetValue | addParam => exact h.elim
    | ignore pred => exact h.elim
  | registerCallback | unregisterCallback | unregisterAllCallbacks => exact h.elim

namespace SeenBroker

/-- No call so far was such a removal. -/
def Allowed (name : P → String) (s : SeenBroker P C) : Prop :=
  ∀ c b, Look.before c b ∈ s.looks → ¬Halves name b c

/-- The broker and all that was seen of it are tidy. -/
def Tidy (s : SeenBroker P C) : Prop := s.broker.Tidy ∧ ∀ l ∈ s.looks, l.broker.Tidy

/-- What calls keep. -/
def Sound (name : P → String) (s : SeenBroker P C) : Prop := s.Allowed name → s.Tidy

variable {name : P → String}

theorem Sound.look {s : SeenBroker P C} (h : s.Sound name) {l : ConsumingBroker P C → Look P C}
    (hl : ∀ b, (l b).broker = b) : (s.look l).Sound name := by
  intro ha
  obtain ⟨hb, hlooks⟩ := h fun c b hc => ha c b (List.mem_append_left _ hc)
  refine ⟨hb, fun l' hl' => ?_⟩
  rcases List.mem_append.1 hl' with hl' | hl'
  · exact hlooks l' hl'
  · obtain rfl := List.mem_singleton.1 hl'
    rw [hl]
    exact hb

theorem Sound.set {s : SeenBroker P C} (h : s.Sound name) {b : ConsumingBroker P C}
    (hb : s.broker.Tidy → b.Tidy) : Sound name ((seenLens P C).set b s) := by
  intro ha
  obtain ⟨hs, hlooks⟩ := h ha
  exact ⟨hb hs, hlooks⟩

end SeenBroker

namespace ConsumingBroker

/-- The callback lists do not matter. -/
theorem Tidy.setCallbackVec {b : ConsumingBroker P C} (hb : b.Tidy) (k : BrokerCallbackKind)
    (v : List BrokerCallbackObj) : (b.setCallbackVec k v).Tidy := by
  cases k with
  | create => exact ⟨⟨hb.consistent.disjoint, hb.consistent.originated⟩, hb.registered⟩
  | destroy => exact ⟨⟨hb.consistent.disjoint, hb.consistent.originated⟩, hb.registered⟩

theorem Tidy.unregisterCallback {b : ConsumingBroker P C} (hb : b.Tidy) (k : BrokerCallbackKind)
    (cb : CallbackHandle) (o : CciOriginator) : (b.unregisterCallback k cb o).2.Tidy := by
  unfold ConsumingBroker.unregisterCallback
  split
  · exact hb.setCallbackVec k _
  · exact hb

/-- A parameter without a used preset can go. -/
theorem Tidy.deregister {b : ConsumingBroker P C} (hb : b.Tidy) {n : String}
    (hn : n ∉ b.mUsedValueRegistry) : (b.deregister n).Tidy := by
  refine ⟨⟨hb.consistent.disjoint, hb.consistent.originated⟩, fun m hm => ?_⟩
  refine Std.ExtTreeMap.mem_erase.2 ⟨fun heq => hn ?_, hb.registered m hm⟩
  rw [compare_eq_iff_eq.1 heq]
  exact hm

theorem Tidy.release {b : ConsumingBroker P C} (hb : b.Tidy) (n : String) : (b.release n).Tidy := by
  refine ⟨(hb.consistent.release n).1, fun m hm => ?_⟩
  rw [registry_release]
  rw [Std.ExtTreeMap.mem_iff_isSome_getElem?, used_release] at hm
  split at hm
  · cases hm
  · exact hb.registered m (Std.ExtTreeMap.mem_iff_isSome_getElem?.2 hm)

end ConsumingBroker

/-! ### Client code keeps brokers tidy -/

/-- Client code in this environment keeps what it has seen, and keeps it sound. -/
structure Keeping (name : P → String) (env : ClientEnv P C) : Prop where
  broker : env.broker = seenLens P C
  named : env.name = name
  report : ∀ r s, (env.report r s).2 = s
  call : ∀ held par, Keeps (SeenBroker.Sound name) (env.call held par)
  seen : ∀ l held par, Keeps (fun s => l ∈ s.looks) (env.call held par)

namespace Keeping

variable {name : P → String} {env : ClientEnv P C} (h : Keeping name env)

include h

theorem modify {f : ConsumingBroker P C → ConsumingBroker P C} (hf : ∀ b, b.Tidy → (f b).Tidy) :
    Keeps (SeenBroker.Sound name) (env.broker.modify f : Eff Report (SeenBroker P C) Unit) := by
  intro s hs
  rw [h.broker]
  exact hs.set (hf s.broker)

theorem dispatch (par : P) (elem : SeenBroker P C → ℕ → Option BrokerCallbackObj) :
    Keeps (SeenBroker.Sound name) (Eff.forEach elem (env.invoke par) env.fuel 0 ()) :=
  BrokerEnv.keeps_callbacks (fun held => h.call held par) elem

/-- A new parameter and its preset are there before the create callbacks run. -/
theorem addParam (par : P) : Keeps (SeenBroker.Sound name) (env.addParam par) := by
  intro s hs
  simp only [BrokerEnv.addParam, Eff.get_bind_run]
  split
  · exact hs
  · rename_i hnew
    rw [h.broker, h.named] at hnew
    refine h.dispatch par _ _ ?_
    rw [h.broker, h.named]
    exact hs.set fun hb => (ReportStep.add hnew).tidy hb

/-- The destroy callbacks run between the removal of the parameter and that of its used preset: there
has to be no preset, or no callback. -/
theorem removeParam {par : P} {s : SeenBroker P C} (hs : s.Sound name)
    (hwhole : ¬(name par ∈ s.broker.mUsedValueRegistry ∧ s.broker.mDestroyCallbacks ≠ [])) :
    (env.removeParam par s).2.Sound name := by
  by_cases hused : name par ∈ s.broker.mUsedValueRegistry
  · have hnone : s.broker.mDestroyCallbacks = [] := by
      by_contra hne
      exact hwhole ⟨hused, hne⟩
    have hdone : Eff.forEach (fun s i => (env.broker.get s).mDestroyCallbacks[i]?) (env.invoke par)
        env.fuel 0 () (env.broker.set ((env.broker.get s).deregister (name par)) s) =
          (.ok (), env.broker.set ((env.broker.get s).deregister (name par)) s) := by
      refine Eff.forEach_done _ ?_ _ _ _
      rw [h.broker]
      show s.broker.mDestroyCallbacks[0]? = none
      rw [hnone]
      rfl
    unfold BrokerEnv.removeParam
    rw [h.named]
    simp only [Lens.modify, Eff.modify_bind_run]
    rw [Eff.bind_run_ok hdone, h.broker]
    exact hs.set fun hb => (ReportStep.remove s.broker par).tidy hb
  · refine Keeps.bind (I := SeenBroker.Sound name) (h.dispatch par _)
      (fun _ => h.modify fun b hb => hb.release _) _ ?_
    rw [h.broker, h.named]
    exact hs.set fun hb => hb.deregister hused

/-- A call that does not halve its broker keeps it tidy, and with it all that is seen meanwhile. -/
theorem run {c : BrokerCall P C} {s : SeenBroker P C} (hs : s.Sound name)
    (hc : ¬Halves name s.broker c) : (c.run env s).2.Sound name := by
  cases c with
  | registerCallback k cb o => exact h.modify (fun b hb => hb.setCallbackVec k _) s hs
  | unregisterCallback k cb o => exact h.modify (fun b hb => hb.unregisterCallback k cb o) s hs
  | unregisterAllCallbacks o =>
    exact h.modify (fun b hb => (hb.setCallbackVec .create _).setCallbackVec .destroy _) s hs
  | report c =>
    cases c with
    | ignore pred =>
      have htidy : ∀ b : ConsumingBroker P C, b.Tidy → (b.ignoreUnconsumedPresetValues pred).Tidy :=
        fun b hb => (.ignore b pred : ReportStep name b _ _).tidy hb
      exact h.modify htidy s hs
    | call c =>
      cases c with
      | setPresetCciValue n v o =>
        simp only [BrokerCall.run, ReportCmd.run, BrokerCmd.run, BrokerEnv.setPresetCciValue,
          Eff.get_bind_run, h.broker]
        cases hr : ((seenLens P C).get s).setPresetCciValue n v o with
        | error r =>
          show (env.report r s).2.Sound name
          rw [h.report]
          exact hs
        | ok b' =>
          have hstep : ReportStep name s.broker (.call (.setPresetCciValue n v o)) b' := .set hr
          exact hs.set hstep.tidy
      | lockPresetValue n =>
        have htidy : ∀ b : ConsumingBroker P C, b.Tidy → (b.lockPresetValue n).Tidy :=
          fun b hb => (.lock b n : ReportStep name b _ _).tidy hb
        exact h.modify htidy s hs
      | addParam par => exact h.addParam par s hs
      | removeParam par => exact h.removeParam hs hc

theorem run_seen (l : Look P C) (c : BrokerCall P C) : Keeps (fun s => l ∈ s.looks) (c.run env) := by
  have hset : ∀ b s, l ∈ s.looks → l ∈ (env.broker.set b s).looks := by
    intro b s hl
    rw [h.broker]
    exact hl
  have hmodify : ∀ f, Keeps (fun s => l ∈ s.looks) (env.broker.modify f : Eff Report _ Unit) :=
    fun f s hl => hset _ s hl
  cases c with
  | registerCallback k cb o => exact hmodify _
  | unregisterCallback k cb o => exact hmodify _
  | unregisterAllCallbacks o => exact hmodify _
  | report c =>
    cases c with
    | ignore pred => exact hmodify _
    | call c =>
      refine BrokerCmd.run_frame hset (fun r s hl => ?_) (h.seen l) c
      rw [h.report]
      exact hl

theorem exec_seen (l : Look P C) (c : BrokerCall P C) :
    Keeps (fun s => l ∈ s.looks) (c.exec env) :=
  Keeps.bind (Keeps.modify fun _ hl => List.mem_append_left _ hl) fun _ =>
    Keeps.finalizing (fun _ hl => List.mem_append_left _ hl) (h.run_seen l c)

/-- A call is sound: one that halves the broker is among those that were seen. -/
theorem exec (c : BrokerCall P C) : Keeps (SeenBroker.Sound name) (c.exec env) := by
  intro s hs
  by_cases hc : Halves name s.broker c
  · intro ha
    have hseen : Look.before c s.broker ∈ (c.exec env s).2.looks := by
      refine Keeps.finalizing (I := fun s' : SeenBroker P C => Look.before c s.broker ∈ s'.looks)
        (fun _ hl => List.mem_append_left _ hl) (h.run_seen _ c) _ ?_
      exact List.mem_append_right _ (List.mem_singleton_self _)
    exact absurd hc (ha c s.broker hseen)
  · have hs' : (s.look (.before c)).Sound name := hs.look fun b => rfl
    have hrun : (c.run env (s.look (.before c))).2.Sound name := h.run hs' hc
    have hlook : ∀ t : SeenBroker P C, t.Sound name → (t.look (.after c)).Sound name :=
      fun t ht => ht.look fun _ => rfl
    show (Eff.finalizing (SeenBroker.look (.after c)) (c.run env) (s.look (.before c))).2.Sound name
    unfold Eff.finalizing
    rcases hr : c.run env (s.look (.before c)) with ⟨u | e | _ | _, t⟩ <;> rw [hr] at hrun
    · exact hlook t hrun
    · exact hlook t hrun
    · exact hrun
    · exact hrun

theorem prog (prog : BrokerProg P C) : Keeps (SeenBroker.Sound name) (prog.run env) := by
  induction prog with
  | ret => exact Keeps.pure ()
  | raise r => exact Keeps.raise r
  | cmd c k ih =>
    exact Keeps.bind (Keeps.attempt (h.exec c)) fun a => Keeps.bind Keeps.get fun s => ih a s.looks

theorem prog_seen (l : Look P C) (prog : BrokerProg P C) :
    Keeps (fun s => l ∈ s.looks) (prog.run env) := by
  induction prog with
  | ret => exact Keeps.pure ()
  | raise r => exact Keeps.raise r
  | cmd c k ih =>
    exact Keeps.bind (Keeps.attempt (h.exec_seen l c)) fun a =>
      Keeps.bind Keeps.get fun s => ih a s.looks

end Keeping

/-- Client code nested to any depth. -/
theorem clientEnv_keeping (name : P → String) (throws : Bool)
    (body : Held → P → List (Look P C) → BrokerProg P C) (n : ℕ) :
    Keeping name (clientEnv name throws body n) := by
  have hreport : ∀ (r : Report) (s : SeenBroker P C),
      ((if throws then Eff.raise r else pure () : Eff Report (SeenBroker P C) Unit) s).2 = s := by
    intro r s
    cases throws <;> rfl
  induction n with
  | zero => exact ⟨rfl, rfl, hreport, fun _ _ => Keeps.diverge, fun _ _ _ => Keeps.diverge⟩
  | succ n ih =>
    refine ⟨rfl, rfl, hreport, fun held par => ?_, fun l held par => ?_⟩
    · refine Keeps.bind (Keeps.modify fun s hs => hs.look fun _ => rfl) fun _ =>
        Keeps.bind Keeps.get fun s => ih.prog _
    · refine Keeps.bind (Keeps.modify fun s hl => List.mem_append_left _ hl) fun _ =>
        Keeps.bind Keeps.get fun s => ih.prog_seen l _

/-- **No half-updated broker is seen.**  In every run of client code on a new broker, callbacks
nested to any depth, in which no parameter with a used preset is removed while there are destroy
callbacks: the broker is whole at every point at which client code can look at it, between the calls
and in the callbacks. -/
theorem whole_throughout [Inhabited C] (name : P → String) (throws : Bool)
    (body : Held → P → List (Look P C) → BrokerProg P C) (n : ℕ) {s t : SeenBroker P C}
    (hfresh : s.broker.Fresh) (hlooks : s.looks = []) {cs : List (BrokerCall P C)}
    (hrun : Runs (BrokerCall.exec (clientEnv name throws body n)) s cs t)
    (hallowed : ∀ c b, Look.before c b ∈ t.looks → ¬Halves name b c) :
    t.broker.Whole ∧ ∀ l ∈ t.looks, l.broker.Whole := by
  have hs : s.Sound name := fun _ => ⟨hfresh.tidy, fun l hl => by rw [hlooks] at hl; cases hl⟩
  have hsound := hrun.keeps (fun c _ => (clientEnv_keeping name throws body n).exec c) hs
  obtain ⟨hb, hseen⟩ := hsound hallowed
  exact ⟨hb.whole, fun l hl => (hseen l hl).whole⟩

/-- Client code that only looks, on a broker whose parameters are their names. -/
def lookingEnv : ClientEnv String ℕ := clientEnv id true (fun _ _ _ => .ret) 1

/-- A preset, a callback of the given kind, and the life of the parameter. -/
def lookingCalls (k : BrokerCallbackKind) : List (BrokerCall String ℕ) :=
  [.report (.call (.setPresetCciValue "top.p" 7 (.named "tool"))),
    .registerCallback k (some (.impl ⟨1, ⟨.other 0, .void⟩⟩)) (.named "tool"),
    .report (.call (.addParam "top.p")), .report (.call (.removeParam "top.p"))]

/-- The destroy callback finds the preset of the removed parameter among the used ones. -/
theorem half_updated_in_destroy :
    ¬∀ (name : String → String) (throws : Bool)
      (body : Held → String → List (Look String ℕ) → BrokerProg String ℕ) (n : ℕ)
      (s t : SeenBroker String ℕ), s.broker.Fresh → s.looks = [] → ∀ cs : List (BrokerCall String ℕ),
        Runs (BrokerCall.exec (clientEnv name throws body n)) s cs t →
          t.broker.Whole ∧ ∀ l ∈ t.looks, l.broker.Whole := by
  intro h
  have hfresh : ({} : ConsumingBroker String ℕ).Fresh := ⟨⟨rfl, rfl, rfl, rfl⟩, rfl⟩
  let cs := lookingCalls .destroy
  let t := states (BrokerCall.exec lookingEnv) ⟨{}, []⟩ cs
  have hrun : Runs (BrokerCall.exec lookingEnv) ⟨{}, []⟩ cs t :=
    .cons (by decide +kernel) (.cons (by decide +kernel) (.cons (by decide +kernel)
      (.cons (by decide +kernel) (.nil _))))
  obtain ⟨-, hwhole⟩ := h id true (fun _ _ _ => .ret) 1 _ t hfresh rfl cs hrun
  have hseen : t.looks.any (fun l => decide ("top.p" ∈ l.broker.mUsedValueRegistry) &&
      decide ("top.p" ∉ l.broker.mParamRegistry)) = true := by
    decide +kernel
  obtain ⟨l, hl, hhalf⟩ := List.any_eq_true.1 hseen
  rw [Bool.and_eq_true, decide_eq_true_eq, decide_eq_true_eq] at hhalf
  exact hhalf.2 ((hwhole l hl).registered "top.p" hhalf.1)

/-- A create callback sees whole brokers. -/
theorem whole_throughout_create :
    let t := states (BrokerCall.exec lookingEnv) ⟨{}, []⟩ (lookingCalls .create)
    t.broker.Whole ∧ ∀ l ∈ t.looks, l.broker.Whole := by
  intro t
  have hfresh : ({} : ConsumingBroker String ℕ).Fresh := ⟨⟨rfl, rfl, rfl, rfl⟩, rfl⟩
  have hrun : Runs (BrokerCall.exec lookingEnv) ⟨{}, []⟩ (lookingCalls .create) t :=
    .cons (by decide +kernel) (.cons (by decide +kernel) (.cons (by decide +kernel)
      (.cons (by decide +kernel) (.nil _))))
  have hnone : t.looks.all (fun l => l.broker.mDestroyCallbacks.isEmpty) = true := by
    decide +kernel
  refine whole_throughout id true (fun _ _ _ => .ret) 1 hfresh rfl hrun fun c b hc hhalf => ?_
  exact hhalf.callbacks (List.isEmpty_iff.1 (List.all_eq_true.1 hnone _ hc))

end Cci
