import Cci.Lib.Locality
import Cci.Cfg.Operations
import Cci.Utils.ConsumingBroker

/-!
# Independent subsystems

The parameters of a design fall into subsystems; the bodies of the callbacks told of an event of one
subsystem use parameters of that subsystem only.  Then the subsystems do not interfere, although they
share one broker.

* `World.part` — the parameters of a set, with the broker;
* `Confined` — depends on the parameters of a set only, and changes no other; `Confined.exec`, every
  command on a parameter of the set is;
* `interp_confined` — so are the callback bodies;
* `independent_subsystems` — the order of commands of different subsystems does not matter.
-/

namespace Cci

open Effect CciParamTyped

variable {D : Design} {B : Type}

theorem Prog.All.mono {P Q : Cmd D → Prop} (h : ∀ c, P c → Q c) {prog : Prog D} (hP : prog.All P) :
    prog.All Q := by
  induction hP with
  | ret b => exact .ret b
  | raise r => exact .raise r
  | cmd hc _ ih => exact .cmd (h _ hc) ih

/-! ### Parts of the world -/

/-- What there is of the world in the set `S`: its parameters, and the broker. -/
def World.part (S : Set D.Param) (w : World D B) :
    ((p : S) → CciParam (D.Value p.1)) × (D.Param → D.BrokerHandle) × B :=
  (fun p => w.param p.1, w.store.mBrokerHandle, w.store.broker)

theorem World.part_eq_iff {S : Set D.Param} {w w' : World D B} : w.part S = w'.part S ↔
    (∀ p ∈ S, w.param p = w'.param p) ∧ w.store.mBrokerHandle = w'.store.mBrokerHandle ∧
      w.store.broker = w'.store.broker := by
  constructor
  · intro h
    have hparams := congrArg Prod.fst h
    have hbroker := congrArg Prod.snd h
    exact ⟨fun p hp => congrFun hparams ⟨p, hp⟩, congrArg Prod.fst hbroker, congrArg Prod.snd hbroker⟩
  · rintro ⟨hparams, hhandle, hbroker⟩
    unfold World.part
    rw [hhandle, hbroker]
    congr 1
    funext p
    exact hparams p.1 p.2

/-- What a world shows outside `S` includes every set that does not meet `S`. -/
theorem World.part_of_disjoint {S T : Set D.Param} (hST : Disjoint S T) {w w' : World D B}
    (h : w.part Sᶜ = w'.part Sᶜ) : w.part T = w'.part T := by
  obtain ⟨hparams, hrest⟩ := World.part_eq_iff.1 h
  exact World.part_eq_iff.2 ⟨fun p hp => hparams p fun hin => Set.disjoint_left.1 hST hin hp, hrest⟩

theorem World.part_setParam {S : Set D.Param} {w w' : World D B} (h : w.part S = w'.part S)
    (p : D.Param) {q q' : CciParam (D.Value p)} (hq : p ∈ S → q = q') :
    (w.setParam p q).part S = (w'.setParam p q').part S := by
  obtain ⟨hparams, hrest⟩ := World.part_eq_iff.1 h
  refine World.part_eq_iff.2 ⟨fun r hr => ?_, hrest⟩
  by_cases hrp : r = p
  · subst hrp
    rw [World.param_setParam, World.param_setParam]
    exact hq hr
  · rw [World.param_setParam_of_ne w _ hrp, World.param_setParam_of_ne w' _ hrp]
    exact hparams r hr

theorem World.part_setParam_outside {S : Set D.Param} (w : World D B) {p : D.Param} (hp : p ∈ S)
    (q : CciParam (D.Value p)) : (w.setParam p q).part Sᶜ = w.part Sᶜ := by
  refine World.part_eq_iff.2 ⟨fun r hr => World.param_setParam_of_ne w q fun hrp => ?_, rfl, rfl⟩
  exact hr (hrp ▸ hp)

/-- The computation depends on the parameters in `S` and on the broker only, and changes no others;
the traces need not agree. -/
abbrev Confined {α : Type} (S : Set D.Param) (m : CciM D B α) : Prop :=
  Local (fun _ => True) (World.part S) (World.part Sᶜ) m

namespace Confined

variable {S : Set D.Param} {p : D.Param} {α : Type}

theorem administering (hp : p ∈ S) :
    Administering p fun α (m : CciM D B α) => Confined S m where
  pure := Local.pure
  bind := Local.bind
  getParam := Local.gets fun _ _ _ _ h => (World.part_eq_iff.1 h).1 p hp
  modifyParam f := Local.modify
    (fun _ _ h => World.part_setParam h p fun _ => by rw [(World.part_eq_iff.1 h).1 p hp])
    (fun w => World.part_setParam_outside w hp _) fun _ _ => trivial

theorem log (e : TraceEvent D B) : Confined S (log e : CciM D B Unit) :=
  Local.modify (fun _ _ h => h) (fun _ => rfl) fun _ _ => trivial

theorem reportError (r : Report) : Confined S (reportError r : CciM D B Unit) :=
  (log _).bind fun _ => Local.ite (Local.raise _) (Local.pure _)

theorem scopedTrue (hp : p ∈ S) (k : CallbackKind) {m : CciM D B α} (hm : Confined S m) :
    Confined S (scopedTrue p k m) := by
  have hset : ∀ (b : Bool) (w w' : World D B), w.part S = w'.part S →
      (w.setParam p ((w.param p).setOncall k b)).part S =
        (w'.setParam p ((w'.param p).setOncall k b)).part S := fun b w w' h =>
    World.part_setParam h p fun _ => by rw [(World.part_eq_iff.1 h).1 p hp]
  refine (Local.modify (fun w w' h => ?_) (fun w => ?_) fun _ _ => trivial).bind fun _ =>
    Local.finalizing (fun w w' h => ?_) (fun w => ?_) (fun _ _ => trivial) hm
  · exact hset true w w' h
  · exact World.part_setParam_outside w hp _
  · exact hset false w w' h
  · exact World.part_setParam_outside w hp _

variable {I : Interp D B} (hcall : ∀ f ev, ev.param ∈ S → Confined S (I.call f ev))

include hcall

theorem reading (hp : p ∈ S) : Reading I p fun α (m : CciM D B α) => Confined S m where
  toAdministering := administering hp
  log := log
  abort := Local.abort
  valueFailure _ := reportError _
  scopedTrue k _ hm := scopedTrue hp k hm
  loop k _ hact := Local.forEach (fun w w' _ _ h => by
    funext i
    rw [entryAt, entryAt, (World.part_eq_iff.1 h).1 p hp]) hact
  call f ev hev := hcall f ev (hev ▸ hp)

theorem writing (hp : p ∈ S) : Writing I p fun α (m : CciM D B α) => Confined S m where
  toReading := reading hcall hp
  setFailure _ := reportError _
  consult hk hl := Local.get (fun w w' _ _ h => by
    obtain ⟨hparams, hhandle, hbroker⟩ := World.part_eq_iff.1 h
    exact hk w w' (hparams p hp) hhandle hbroker) fun w _ => hl w

variable [CciBrokerIf B D.BrokerHandle D.CciValue]

/-- Every command on a parameter of the set. -/
theorem exec {c : Cmd D} (hc : c.param? = some p) (hp : p ∈ S) : Confined S (exec I c) := by
  have hrun : Confined S (c.run I) := run_of_access hc (administering hp)
    (fun _ => reading hcall hp) fun _ => writing hcall hp
  unfold Cci.exec
  refine Local.bind (Local.modify (fun _ _ h => h) (fun _ => rfl) fun _ _ => trivial) fun _ => ?_
  exact Local.finalizing (fun _ _ h => h) (fun _ => rfl) (fun _ _ => trivial) hrun

theorem runProg {prog : Prog D} (hprog : prog.All fun c => ∃ p ∈ S, c.param? = some p) :
    Confined S (runProg I prog) := by
  induction hprog with
  | ret b => exact Local.pure b
  | raise r => exact Local.raise r
  | cmd hc _ ih =>
    obtain ⟨p, hp, hc⟩ := hc
    exact (exec hcall hc hp).attempt.bind ih

end Confined

variable [CciBrokerIf B D.BrokerHandle D.CciValue]

/-- Bodies that stay in the set of the parameter they are told of. -/
theorem interp_confined {S : Set D.Param} {Γ : CallbackImpl → Payload D → Prog D}
    (hΓ : ∀ f ev, ev.param ∈ S → (Γ f ev).All fun c => ∃ p ∈ S, c.param? = some p) (n : ℕ) :
    ∀ f ev, ev.param ∈ S → Confined S ((interp Γ n : Interp D B).call f ev) := by
  induction n with
  | zero => exact fun f ev _ => Local.diverge
  | succ n ih => exact fun f ev hev => Confined.runProg ih (hΓ f ev hev)

/-! ### Reordering -/

section

variable {ι : Type} (sub : D.Param → ι)

/-- The subsystem of a command. -/
def Cmd.subsystem (c : Cmd D) : Option ι := c.param?.map sub

/-- The parameters of a subsystem. -/
def block (i : Option ι) : Set D.Param := {p | some (sub p) = i}

omit [CciBrokerIf B D.BrokerHandle D.CciValue] in
theorem apart_blocks :
    Apart (fun i => World.part (B := B) (block sub i)) fun i => World.part (block sub i)ᶜ := by
  intro i j hij w w' h
  refine World.part_of_disjoint (Set.disjoint_left.2 fun p hi hj => ?_) h
  exact hij (hi.symm.trans hj)

/-- A command on a parameter is confined to the subsystem of the parameter. -/
theorem exec_confined_block {Γ : CallbackImpl → Payload D → Prog D}
    (hΓ : ∀ f ev, (Γ f ev).All fun c => c.subsystem sub = some (sub ev.param)) (n : ℕ) {c : Cmd D}
    (hc : c.param?.isSome) :
    Confined (block sub (c.subsystem sub)) (exec (interp Γ n) c : CciM D B (Answer D)) := by
  obtain ⟨p, hp⟩ := Option.isSome_iff_exists.1 hc
  have hin : p ∈ block sub (c.subsystem sub) := by
    show some (sub p) = c.param?.map sub
    rw [hp]
    rfl
  refine Confined.exec (interp_confined (fun f ev hev => ?_) n) hp hin
  refine Prog.All.mono (fun d hd => ?_) (hΓ f ev)
  obtain ⟨r, hr, hsub⟩ := Option.map_eq_some_iff.1 hd
  refine ⟨r, ?_, hr⟩
  show some (sub r) = c.subsystem sub
  rw [hsub]
  exact hev

/-- **Independent subsystems.**  Let the bodies of the callbacks told of an event of one subsystem use
parameters of that subsystem only.  Two sequences of commands on parameters that agree on the commands
of each subsystem and their order come back alike: the commands of each subsystem have the same
outcomes, and the parameters end in the same state. -/
theorem independent_subsystems [DecidableEq ι] (Γ : CallbackImpl → Payload D → Prog D)
    (hΓ : ∀ f ev, (Γ f ev).All fun c => c.subsystem sub = some (sub ev.param)) (n : ℕ)
    {w t : World D B} {cs cs' : List (Cmd D)} (hcs : ∀ c ∈ cs, c.param?.isSome)
    (hsame : ∀ i, cs'.filter (fun c => c.subsystem sub = i) = cs.filter fun c => c.subsystem sub = i)
    (hrun : Calls (interp Γ n) w cs t) :
    ∃ t', Calls (interp Γ n) w cs' t' ∧ t'.store = t.store ∧
      ∀ i, outcomesOf (fun c => c.subsystem sub = i) (exec (interp Γ n)) w cs' =
        outcomesOf (fun c => c.subsystem sub = i) (exec (interp Γ n)) w cs := by
  have hcs' : ∀ c ∈ cs', c.param?.isSome := by
    intro c hc
    have hin : c ∈ cs'.filter fun d => d.subsystem sub = c.subsystem sub :=
      List.mem_filter.2 ⟨hc, decide_eq_true rfl⟩
    rw [hsame] at hin
    exact hcs c (List.mem_filter.1 hin).1
  obtain ⟨t', hrun', hend⟩ := hrun.reorder (apart_blocks sub) trivial
    (fun c hc => exec_confined_block sub hΓ n (hcs c hc))
    (fun c hc => exec_confined_block sub hΓ n (hcs' c hc)) hsame
  refine ⟨t', hrun', ?_, fun i => (hend i).2⟩
  obtain ⟨-, hhandle, hbroker⟩ := World.part_eq_iff.1 (hend none).1
  have hparams : t'.store.params = t.store.params := by
    funext p
    exact (World.part_eq_iff.1 (hend (some (sub p))).1).1 p rfl
  rcases t' with ⟨⟨params, mBrokerHandle, broker⟩, stack, trace⟩
  rcases t with ⟨⟨params', mBrokerHandle', broker'⟩, stack', trace'⟩
  cases hparams
  cases hhandle
  cases hbroker
  rfl

end

/-- A body that reads the parameter it is told of and writes the new value once more. -/
def twice (_ : CallbackImpl) : Payload (natDesign Bool true) → Prog (natDesign Bool true)
  | .typed p (.write _ newValue _ _) | .untyped p (.write _ newValue _ _) =>
      .cmd (.getValue p) fun _ => .cmd (.setValue p newValue) fun _ => .ret true
  | _ => .ret true

/-- Two parameters, each with a callback that reads and writes it. -/
theorem independent_subsystems_twice :
    let I : Interp (natDesign Bool true) (ConsumingBroker Bool ℕ) := interp twice 1
    let cb : CallbackHandle := some (.impl ⟨1, ⟨.writeEvent none, .void⟩⟩)
    let w := natWorld true (fun p => if p then "top.a" else "top.b") (fun _ => 1) (.named "top") {}
    let onA : List (Cmd (natDesign Bool true)) :=
      [.handleRegisterCallback true .postWrite cb (.named "a"), .setValue true (1 : ℕ), .getValue true]
    let onB : List (Cmd (natDesign Bool true)) := [.setValue false (2 : ℕ), .reset false]
    ∃ t, Calls I w (onB ++ onA) t ∧ t.store = (states (exec I) w (onA ++ onB)).store := by
  intro I cb w onA onB
  have hbodies : ∀ f ev, (twice f ev).All fun c => c.subsystem id = some ev.param := by
    intro f ev
    unfold twice
    split
    · exact .cmd rfl fun _ => .cmd rfl fun _ => .ret true
    · exact .cmd rfl fun _ => .cmd rfl fun _ => .ret true
    · exact .ret true
  have hrun : Calls I w (onA ++ onB) (states (exec I) w (onA ++ onB)) :=
    .cons (by decide +kernel) (.cons (by decide +kernel) (.cons (by decide +kernel)
      (.cons (by decide +kernel) (.cons (by decide +kernel) (.nil _)))))
  have hsame : ∀ i, (onB ++ onA).filter (fun c => c.subsystem id = i) =
      (onA ++ onB).filter fun c => c.subsystem id = i := by
    intro i
    rcases i with _ | (_ | _) <;> rfl
  have hparams : ∀ c ∈ onA ++ onB, c.param?.isSome := by
    intro c hc
    fin_cases hc <;> rfl
  obtain ⟨t, ht, hstore, -⟩ := independent_subsystems id twice hbodies 1 hparams hsame hrun
  exact ⟨t, ht, hstore⟩

end Cci
