import Cci.Lib.Ghost
import Cci.Cfg.BrokerManager
import Cci.Utils.ValueByName

/-!
# Originators through broker handles

A `cci_broker_handle` has an originator, which `get_param_handle` and `get_param_handles` pass on to
the broker and `get_cci_value` does not.  On the way up a chain, `get_param_handle` keeps it;
`get_param_handles` asks the parent without one.

* `BrokerHandle.getCciValue`, `getParamHandle`, `getParamHandles`, `getParamHandlesWith`;
* `ChainEnv.watched`, `presented` — the reads that reach parameters, and as whom;
* `getCciValue_congr` — the callbacks of a parameter see the originator it is read with;
* `Carried` — the handle's originator is the one that is presented and carried;
* `originator_carried_exact` — when it is.
-/

namespace Cci

open Effect

/-! ### Broker handles -/

namespace BrokerHandle

variable {σ P C : Type} (env : ChainEnv σ P C) (h : BrokerHandle ℕ)

/-- `get_cci_value(parname)`: the broker is asked without an originator. -/
def getCciValue [Inhabited C] (parname : String) : Eff Report σ C := do
  let originator ← env.defaultOriginator
  env.getCciValue parname h.mBroker originator

/-- `get_param_handle(parname)`. -/
def getParamHandle (ch : BrokerChain P C) (parname : String) : ParamHandle P :=
  ChainEnv.getParamHandle ch parname h.mOriginator h.mBroker

/-- `get_param_handles()`. -/
def getParamHandles : Eff Report σ (List (ParamHandle P)) :=
  env.getParamHandles h.mBroker h.mOriginator

/-- `get_param_handles(pred)`. -/
def getParamHandlesWith (pred : ParamHandle P → Bool) :
    Eff Report σ (FilteredRange (ParamHandle P)) :=
  env.getParamHandlesWith h.mBroker pred h.mOriginator

variable {env h}

/-- The predicate form filters a list that `get_param_handles()` returned. -/
theorem getParamHandlesWith_ok {pred : ParamHandle P → Bool} {r : FilteredRange (ParamHandle P)}
    {s t : σ} (hrun : h.getParamHandlesWith env pred s = (.ok r, t)) :
    ∃ xs, h.getParamHandles env s = (.ok xs, t) ∧ r.iterated = xs.filter pred := by
  unfold getParamHandlesWith ChainEnv.getParamHandlesWith at hrun
  unfold getParamHandles
  rw [Eff.bind_run] at hrun
  rcases hxs : env.getParamHandles h.mBroker h.mOriginator s with ⟨xs | e | _ | _, u⟩ <;>
    rw [hxs] at hrun <;> cases hrun
  exact ⟨xs, rfl, FilteredRange.iterated_eq_filter _⟩

end BrokerHandle

/-! ### The reads that reach parameters -/

namespace ChainEnv

variable {σ P C : Type} (env : ChainEnv σ P C)

/-- The chain beside the list of the reads that reach parameters, and as whom. -/
def watched : ChainEnv (σ × List (P × CciOriginator)) P C where
  chain := env.chain.beside
  name := env.name
  report r := (env.report r).beside
  read p o := Eff.modify (fun s => (s.1, s.2 ++ [(p, o)])) >>= fun _ => (env.read p o).beside
  call held p := (env.call held p).beside
  fuel := env.fuel
  currentObject := env.currentObject

variable {env}

theorem watched_defaultOriginator : Observes env.watched.defaultOriginator env.defaultOriginator := by
  have hobject : env.watched.currentObject = env.currentObject := rfl
  unfold defaultOriginator
  rw [hobject]
  cases env.currentObject with
  | some obj => exact .pure _
  | none => exact .bind (.beside _) fun _ => .pure _

theorem watched_ownGetCciValue [Inhabited C] (i : ℕ) (n : String) (o : CciOriginator) :
    Observes (env.watched.ownGetCciValue i n o) (env.ownGetCciValue i n o) := by
  refine .get fun s g => ?_
  have hchain : env.watched.chain.get (s, g) = env.chain.get s := rfl
  rw [hchain]
  cases (env.chain.get s i).getOrigParam n with
  | some p => exact .write (fun g => g ++ [(p, o)]) (.beside _)
  | none =>
    cases (env.chain.get s i).mUnusedValueRegistry[n]? with
    | some v => exact .pure _
    | none => exact .bind (.beside _) fun _ => .pure _

/-- The list is only written to: with it, reading by name runs as without. -/
theorem watched_getCciValue [Inhabited C] (n : String) (i : ℕ) (o : CciOriginator) :
    Observes (env.watched.getCciValue n i o) (env.getCciValue n i o) := by
  induction i generalizing o with
  | zero => exact .bind watched_defaultOriginator fun _ => watched_ownGetCciValue 0 n _
  | succ i ih =>
    refine .get fun s g => ?_
    show Observes (if (env.chain.get s).sendToParent (i + 1) n then _ else _) _
    cases (env.chain.get s).sendToParent (i + 1) n with
    | true => exact .bind watched_defaultOriginator fun _ => ih _
    | false => exact .bind watched_defaultOriginator fun _ => watched_ownGetCciValue (i + 1) n _

/-- The reads of parameters that `get_cci_value(n)` of a broker handle makes. -/
def presented [Inhabited C] (env : ChainEnv σ P C) (h : BrokerHandle ℕ) (n : String) (s : σ) :
    List (P × CciOriginator) :=
  (h.getCciValue env.watched n (s, [])).2.2

variable {throws : Bool} {R : σ → σ → Prop}

theorem Reporting.watched (hr : env.Reporting throws R) :
    env.watched.Reporting throws fun s t => R s.1 t.1 ∧ t.2 = s.2 where
  refl s := ⟨hr.refl s.1, rfl⟩
  trans h h' := ⟨hr.trans h.1 h'.1, h'.2.trans h.2⟩
  report r s := by
    obtain ⟨t, ht, hR⟩ := hr.report r s.1
    refine ⟨(t, s.2), ?_, hR, rfl⟩
    show ((env.report r s.1).1, (env.report r s.1).2, s.2) = _
    rw [ht]

/-- One default argument at the handle, and the one that reaches the responding broker. -/
theorem Reporting.handle_ok [Inhabited C] (hr : env.Reporting throws R)
    (hR : ∀ {s t}, R s t → env.chain.get t = env.chain.get s) (hd : env.HasDefault throws)
    (h : BrokerHandle ℕ) (n : String) (s : σ) :
    ∃ t, R s t ∧ h.getCciValue env n s =
      env.ownGetCciValue ((env.chain.get s).resp n h.mBroker) n env.fallbackOriginator t := by
  have hfix : ∀ r, env.chain.Fixed (env.report r) := fun r s => by
    obtain ⟨t, ht, hst⟩ := hr.report r s
    rw [ht]
    exact hR hst
  obtain ⟨t, ht, hst⟩ := hr.defaultOriginator_ok hd s
  obtain ⟨u, hu, htu⟩ := hr.askedAs_ok hd n h.mBroker t
  refine ⟨u, hr.trans hst htu, ?_⟩
  rw [BrokerHandle.getCciValue, Eff.bind_run_ok ht, getCciValue_eq hfix, Eff.bind_run_ok hu, hR hst]

theorem Reporting.handle_throws [Inhabited C] (hr : env.Reporting throws R)
    (hd : ¬env.HasDefault throws) (h : BrokerHandle ℕ) (n : String) (s : σ) :
    ∃ r t, h.getCciValue env n s = (.throw r, t) ∧ R s t := by
  obtain ⟨r, t, ht, hst⟩ := hr.defaultOriginator_throws hd s
  exact ⟨r, t, Eff.bind_run_throw ht _, hst⟩

section

variable [Inhabited C] (hr : env.Reporting throws R)
  (hR : ∀ {s t}, R s t → env.chain.get t = env.chain.get s)

include hr hR

omit hR in
/-- Without a default originator no parameter is read. -/
theorem presented_throws (hd : ¬env.HasDefault throws) (h : BrokerHandle ℕ) (n : String) (s : σ) :
    presented env h n s = [] := by
  obtain ⟨r, t, ht, -, hg⟩ := hr.watched.handle_throws hd h n (s, ([] : List (P × CciOriginator)))
  rw [presented, ht]
  exact hg

/-- A name registered where it is answered for is read as the default originator. -/
theorem presented_registered (hd : env.HasDefault throws) {h : BrokerHandle ℕ} {n : String} {s : σ}
    {p : P} (hp : (env.chain.get s ((env.chain.get s).resp n h.mBroker)).getOrigParam n = some p) :
    presented env h n s = [(p, env.fallbackOriginator)] := by
  obtain ⟨⟨t, g⟩, ⟨hst, hg⟩, hrun⟩ := hr.watched.handle_ok
    (fun hst => hR hst.1) hd h n (s, ([] : List (P × CciOriginator)))
  obtain rfl : g = [] := hg
  have hp' : (env.watched.chain.get (t, ([] : List (P × CciOriginator)))
      ((env.chain.get s).resp n h.mBroker)).getOrigParam n = some p := by
    show (env.chain.get t _).getOrigParam n = some p
    rw [hR hst]
    exact hp
  rw [presented, hrun]
  show (env.watched.ownGetCciValue ((env.chain.get s).resp n h.mBroker) n _ (t, [])).2.2 = _
  rw [ownGetCciValue_registered hp']
  rfl

/-- For any other name no parameter is read. -/
theorem presented_unregistered {h : BrokerHandle ℕ} {n : String} {s : σ}
    (hnone : (env.chain.get s ((env.chain.get s).resp n h.mBroker)).getOrigParam n = none) :
    presented env h n s = [] := by
  by_cases hd : env.HasDefault throws
  · obtain ⟨⟨t, g⟩, ⟨hst, hg⟩, hrun⟩ := hr.watched.handle_ok
      (fun hst => hR hst.1) hd h n (s, ([] : List (P × CciOriginator)))
    obtain rfl : g = [] := hg
    have hnone' : (env.watched.chain.get (t, ([] : List (P × CciOriginator)))
        ((env.chain.get s).resp n h.mBroker)).getOrigParam n = none := by
      show (env.chain.get t _).getOrigParam n = none
      rw [hR hst]
      exact hnone
    rw [presented, hrun]
    show (env.watched.ownGetCciValue ((env.chain.get s).resp n h.mBroker) n _ (t, [])).2.2 = _
    rw [ownGetCciValue_unregistered hnone']
    cases (env.watched.chain.get (t, ([] : List (P × CciOriginator)))
      ((env.chain.get s).resp n h.mBroker)).mUnusedValueRegistry[n]? with
    | some v => rfl
    | none =>
      obtain ⟨u, hu, -, hg⟩ := hr.watched.report
        (getParamFailed "Unable to find the parameter to get value") (t, [])
      simp only [Eff.bind_run, hu]
      cases throws <;> exact hg
  · exact presented_throws hr hd h n s

end

/-! ### The handles of a listing -/

theorem ownParamHandles_originator (hout : env.currentObject = none) (b : Broker P C)
    (o : CciOriginator) : ∀ x ∈ env.ownParamHandles b o, x.mOriginator = o := by
  intro x hx
  obtain ⟨y, -, rfl⟩ := List.mem_map.1 hx
  show env.promoteOriginator o = o
  unfold promoteOriginator
  rw [hout]

/-- Outside the hierarchy a listing asked without an originator carries none. -/
theorem listing_unknown (hout : env.currentObject = none) (ch : BrokerChain P C) (i : ℕ) :
    ∀ x ∈ env.listing ch i .unknown, x.mOriginator = .unknown := by
  induction i with
  | zero => exact ownParamHandles_originator hout _ _
  | succ i ih =>
    intro x hx
    have hfallback : env.fallbackOriginator = .unknown := by rw [fallbackOriginator, hout]
    rw [listing, hfallback, List.mem_append] at hx
    exact hx.elim (ownParamHandles_originator hout _ _ x) (ih x)

/-- The handles that come from brokers above carry no originator. -/
theorem listing_originators {env : ChainEnv σ P C} (hout : env.currentObject = none)
    (ch : BrokerChain P C) (i : ℕ) (o : CciOriginator) :
    (∀ x ∈ env.listing ch i o, (x.mOriginator == o) = true) ↔
      i = 0 ∨ (o == .unknown) = true ∨ ∀ j < i, ∀ m, (ch j).getOrigParam m = none := by
  cases i with
  | zero =>
    refine iff_of_true (fun x hx => ?_) (.inl rfl)
    rw [ownParamHandles_originator hout _ _ x hx]
    exact BEq.rfl
  | succ i =>
    have hfallback : env.fallbackOriginator = .unknown := by rw [fallbackOriginator, hout]
    rw [listing, hfallback]
    constructor
    · intro hall
      refine .inr (or_iff_not_imp_right.2 fun hsome => ?_)
      push Not at hsome
      obtain ⟨j, hj, m, hm⟩ := hsome
      obtain ⟨p, hp⟩ := Option.ne_none_iff_exists'.1 hm
      have hlisted : p ∈ (env.listing ch i .unknown).filterMap ParamHandle.mParam :=
        mem_listing.2 ⟨j, Nat.le_of_lt_succ hj, m, hp⟩
      obtain ⟨x, hx, -⟩ := List.mem_filterMap.1 hlisted
      have hxo := hall x (List.mem_append_right _ hx)
      rw [listing_unknown hout ch i x hx] at hxo
      exact BEq.symm hxo
    · rintro (h | ho | hempty) x hx
      · exact absurd h (Nat.succ_ne_zero i)
      · rcases List.mem_append.1 hx with hx | hx
        · rw [ownParamHandles_originator hout _ _ x hx]
          exact BEq.rfl
        · rw [listing_unknown hout ch i x hx]
          exact BEq.symm ho
      · rcases List.mem_append.1 hx with hx | hx
        · rw [ownParamHandles_originator hout _ _ x hx]
          exact BEq.rfl
        · obtain ⟨p, hp⟩ := Option.isSome_iff_exists.1 (listing_valid ch i .unknown x hx)
          obtain ⟨j, hj, m, hm⟩ := mem_listing.1 (List.mem_filterMap.2 ⟨x, hx, hp⟩)
          rw [← ConsumingBroker.getOrigParam, hempty j (Nat.lt_succ_of_le hj) m] at hm
          cases hm

/-- `get_param_handles` returns the listing, if the default originator can be had where a parent is
asked. -/
theorem Reporting.getParamHandles_ok (hr : env.Reporting throws R)
    (hR : ∀ {s t}, R s t → env.chain.get t = env.chain.get s) (i : ℕ) (o : CciOriginator) (s : σ)
    (hd : i = 0 ∨ env.HasDefault throws) :
    ∃ t, env.getParamHandles i o s = (.ok (env.listing (env.chain.get s) i o), t) := by
  have hrun : ∃ t, env.getParamHandles i o s = (.ok (env.listing (env.chain.get s) i o), t) ∧
      R s t := by
    induction i generalizing o s with
    | zero => exact ⟨s, rfl, hr.refl s⟩
    | succ i ih =>
      have hd' := hd.resolve_left (Nat.succ_ne_zero i)
      obtain ⟨t, ht, hst⟩ := hr.defaultOriginator_ok hd' s
      obtain ⟨u, hu, htu⟩ := ih env.fallbackOriginator t (.inr hd')
      refine ⟨u, ?_, hr.trans hst htu⟩
      rw [getParamHandles, Eff.bind_run_ok ht, Eff.bind_run_ok hu, Eff.get_bind_run, listing, hR hst,
        hR htu, hR hst]
      rfl
  obtain ⟨t, ht, -⟩ := hrun
  exact ⟨t, ht⟩

/-- A private broker cannot ask its parent without a default originator. -/
theorem Reporting.getParamHandles_throws (hr : env.Reporting throws R)
    (hd : ¬env.HasDefault throws) {i : ℕ} (hi : i ≠ 0) (o : CciOriginator) (s : σ) :
    ∃ r t, env.getParamHandles i o s = (.throw r, t) := by
  obtain ⟨i, rfl⟩ := Nat.exists_eq_succ_of_ne_zero hi
  obtain ⟨r, t, ht, -⟩ := hr.defaultOriginator_throws hd s
  exact ⟨r, t, Eff.bind_run_throw ht _⟩

end ChainEnv

/-! ### The callbacks of a parameter -/

variable {D : Design} {B : Type}

/-- The originator of an event. -/
def ParamEvent.originator {V : Type} : ParamEvent V → CciOriginator
  | .write _ _ originator _ => originator
  | .read _ originator _ => originator

def Payload.originator : Payload D → CciOriginator
  | .typed _ ev => ev.originator
  | .untyped _ ev => ev.originator

namespace CciParamTyped

section

variable {I I' : Interp D B} {o : CciOriginator} (hfuel : I.fuel = I'.fuel)
  (hcall : ∀ f ev, ev.originator = o → I.call f ev = I'.call f ev)

include hcall

theorem invokeHeld_congr (p : D.Param) (k : CallbackKind) (entry : CallbackObj)
    {ev : ParamEvent (D.Value p)} (hev : ev.originator = o) (held : Held) :
    invokeHeld I p k entry ev held = invokeHeld I' p k entry ev held := by
  cases held with
  | impl f => rw [invokeHeld, invokeHeld, hcall f (.typed p ev) hev]
  | adapt f sig =>
    funext w
    have hbody : ∀ cciEv : ParamEvent D.CciValue, cciEv.originator = o →
        (log (.invoked p k entry ev) >>= fun _ => I.call f (.untyped p cciEv)) =
          (log (.invoked p k entry ev) >>= fun _ => I'.call f (.untyped p cciEv)) := by
      intro cciEv hcci
      rw [hcall f (.untyped p cciEv) hcci]
    -- An adapter hands on the originator of the event it converts.
    cases ev with
    | write oldValue newValue originator paramHandle =>
      simp only [invokeHeld, genericWrap, Eff.bind_assoc_run]
      rw [Eff.bind_run, Eff.bind_run]
      rcases cciValueOf p oldValue w with ⟨c | e | _ | _, t⟩
      · show ((cciValueOf p newValue >>= _) >>= _) t = ((cciValueOf p newValue >>= _) >>= _) t
        rw [Eff.bind_assoc_run, Eff.bind_assoc_run, Eff.bind_run, Eff.bind_run]
        rcases cciValueOf p newValue t with ⟨c' | e | _ | _, u⟩
        · exact congrFun (hbody _ hev) u
        · rfl
        · rfl
        · rfl
      · rfl
      · rfl
      · rfl
    | read value originator paramHandle =>
      simp only [invokeHeld, genericWrap, Eff.bind_assoc_run]
      rw [Eff.bind_run, Eff.bind_run]
      rcases cciValueOf p value w with ⟨c | e | _ | _, t⟩
      · exact congrFun (hbody _ hev) t
      · rfl
      · rfl
      · rfl

include hfuel

theorem observe_congr (p : D.Param) (k : CallbackKind)
    {mkEvent : CciParam (D.Value p) → CallbackObj → ParamEvent (D.Value p)}
    (hev : ∀ q entry, (mkEvent q entry).originator = o) :
    observe I p k mkEvent = observe I' p k mkEvent := by
  have hentry : observerEntry I p k mkEvent = observerEntry I' p k mkEvent := by
    funext entry u
    unfold observerEntry
    cases typedHandle p k entry with
    | none => rfl
    | some held =>
      have hinvoke : ∀ q, invokeTyped I p k entry (mkEvent q entry) (some held) =
          invokeTyped I' p k entry (mkEvent q entry) (some held) := fun q =>
        invokeHeld_congr hcall p k entry (hev q entry) held
      simp only [hinvoke]
  unfold observe dispatch
  rw [hentry, hfuel]

/-- The callbacks of a parameter that is read as `o` are told `o`: what they would do for another
originator makes no difference. -/
theorem getCciValue_congr (p : D.Param) :
    CciParamTyped.getCciValue I p o = CciParamTyped.getCciValue I' p o := by
  have hraw : getRawValue I p o = getRawValue I' p o := by
    unfold getRawValue preReadCallback postReadCallback
    rw [observe_congr hfuel hcall p .preRead fun _ _ => rfl,
      observe_congr hfuel hcall p .postRead fun _ _ => rfl]
  unfold CciParamTyped.getCciValue
  rw [hraw]

end

end CciParamTyped

/-! ### Carried originators -/

namespace ChainWatchers

variable (L : ChainWatchers D) (I : Interp D (BrokerChain D.Param D.CciValue)) (w : ChainWorld D)
  (h : BrokerHandle ℕ)

/-- A read callback of `p` will be run when `p` is read. -/
def Told (w : ChainWorld D) (p : D.Param) : Prop :=
  ∃ k, (k = .preRead ∨ k = .postRead) ∧ (w.param p).oncall k = false ∧
    ∃ entry ∈ (w.param p).vec k, (CciParamTyped.typedHandle p k entry).isSome = true

variable [Inhabited D.CciValue]

/-- The originator of a broker handle is the one under which visible parameters are read by name, as
far as their callbacks are told, and the one that the parameter handles it gives carry. -/
structure Carried : Prop where
  read : ∀ n p, (h.getParamHandle w.store.broker n).mParam = some p → Told w p →
    ∃ o, ChainEnv.presented (L.env I w) h n w = [(p, o)] ∧ (o == h.mOriginator) = true
  handle : ∀ n, ((h.getParamHandle w.store.broker n).mOriginator == h.mOriginator) = true
  handles : ∀ xs t, h.getParamHandles (L.env I w) w = (.ok xs, t) →
    ∀ x ∈ xs, (x.mOriginator == h.mOriginator) = true
  filtered : ∀ pred r t, h.getParamHandlesWith (L.env I w) pred w = (.ok r, t) →
    ∀ x ∈ r.iterated, (x.mOriginator == h.mOriginator) = true

/-- Reading by name presents the handle's originator: there is no callback to be told, or the name is
registered where it is answered for and the handle has the originator of outside the hierarchy, which
can be had. -/
def ReadAs (n : String) (p : D.Param) : Prop :=
  Told w p → (w.store.broker (w.store.broker.resp n h.mBroker)).getOrigParam n = some p ∧
    D.throws = false ∧ (h.mOriginator == .unknown) = true

/-- No handle comes from a parent, or the handle has the originator of outside the hierarchy. -/
def NoneAbove : Prop :=
  h.mBroker = 0 ∨ D.throws = true ∨ (h.mOriginator == .unknown) = true ∨
    ∀ j < h.mBroker, ∀ m, (w.store.broker j).getOrigParam m = none

variable {L I w h}

omit [Inhabited D.CciValue] in
/-- `get_param_handle` keeps the originator through the chain. -/
theorem getParamHandle_originator (ch : BrokerChain D.Param D.CciValue) (n : String)
    (o : CciOriginator) (i : ℕ) : (ChainEnv.getParamHandle ch n o i).mOriginator = o := by
  induction i with
  | zero =>
    unfold ChainEnv.getParamHandle
    cases (ch 0).getOrigParam n <;> rfl
  | succ i ih =>
    unfold ChainEnv.getParamHandle
    split
    · exact ih
    · cases (ch (i + 1)).getOrigParam n with
      | some p => rfl
      | none => exact ih

theorem reads_iff (hout : L.currentObject = none) (n : String) (p : D.Param) :
    (Told w p → ∃ o, ChainEnv.presented (L.env I w) h n w = [(p, o)] ∧
        (o == h.mOriginator) = true) ↔ ReadAs w h n p := by
  have hr := env_reporting (L := L) (I := I) w
  have hR : ∀ {s t : ChainWorld D}, t.store = s.store →
      (L.env I w).chain.get t = (L.env I w).chain.get s := fun hst => congrArg Store.broker hst
  have hout' : (L.env I w).currentObject = none := hout
  have hfallback : (L.env I w).fallbackOriginator = .unknown := by
    rw [ChainEnv.fallbackOriginator, hout']
  refine imp_congr_right fun _ => ?_
  by_cases hd : (L.env I w).HasDefault D.throws
  · have hthrows : D.throws = false := hd.resolve_left (by rw [hout']; exact Bool.false_ne_true)
    cases hreg : (w.store.broker (w.store.broker.resp n h.mBroker)).getOrigParam n with
    | some q =>
      rw [ChainEnv.presented_registered hr hR hd (h := h) hreg, hfallback]
      constructor
      · rintro ⟨o, ho, heq⟩
        obtain ⟨rfl, rfl⟩ := Prod.mk.inj (List.singleton_inj.1 ho)
        exact ⟨rfl, hthrows, BEq.symm heq⟩
      · rintro ⟨hq, -, heq⟩
        cases hq
        exact ⟨.unknown, rfl, BEq.symm heq⟩
    | none =>
      rw [ChainEnv.presented_unregistered hr hR hreg]
      constructor
      · rintro ⟨o, ho, -⟩
        cases ho
      · rintro ⟨hq, -⟩
        cases hq
  · rw [ChainEnv.presented_throws hr hd]
    constructor
    · rintro ⟨o, ho, -⟩
      cases ho
    · rintro ⟨-, hthrows, -⟩
      exact absurd (.inr hthrows) hd

omit [Inhabited D.CciValue] in
/-- What `get_param_handles` returns carries the originator unless handles come from above. -/
theorem handles_iff (hout : L.currentObject = none) :
    (∀ xs t, h.getParamHandles (L.env I w) w = (.ok xs, t) →
      ∀ x ∈ xs, (x.mOriginator == h.mOriginator) = true) ↔ NoneAbove w h := by
  have hr := env_reporting (L := L) (I := I) w
  have hR : ∀ {s t : ChainWorld D}, t.store = s.store →
      (L.env I w).chain.get t = (L.env I w).chain.get s := fun hst => congrArg Store.broker hst
  have hout' : (L.env I w).currentObject = none := hout
  have hlist := ChainEnv.listing_originators hout'
    w.store.broker h.mBroker h.mOriginator
  by_cases hd : h.mBroker = 0 ∨ (L.env I w).HasDefault D.throws
  · obtain ⟨t, ht⟩ := hr.getParamHandles_ok hR h.mBroker h.mOriginator w hd
    have hall : (∀ xs t, h.getParamHandles (L.env I w) w = (.ok xs, t) →
        ∀ x ∈ xs, (x.mOriginator == h.mOriginator) = true) ↔
        ∀ x ∈ (L.env I w).listing w.store.broker h.mBroker h.mOriginator,
          (x.mOriginator == h.mOriginator) = true := by
      constructor
      · intro hxs
        exact hxs _ t ht
      · intro hxs xs u hu
        rw [BrokerHandle.getParamHandles, ht] at hu
        cases hu
        exact hxs
    rw [hall, hlist, NoneAbove]
    constructor
    · rintro (h0 | hrest)
      · exact .inl h0
      · exact .inr (.inr hrest)
    · rintro (h0 | hthrows | hrest)
      · exact .inl h0
      · refine .inl (hd.resolve_right fun hd' => ?_)
        rcases hd' with hobj | hthrows'
        · rw [hout'] at hobj
          cases hobj
        · rw [hthrows] at hthrows'
          cases hthrows'
      · exact .inr hrest
  · obtain ⟨hi, hd'⟩ := not_or.1 hd
    obtain ⟨r, t, ht⟩ := hr.getParamHandles_throws hd' hi h.mOriginator w
    refine iff_of_true (fun xs u hu => ?_) (.inr (.inl ?_))
    · rw [BrokerHandle.getParamHandles, ht] at hu
      cases hu
    · have hthrows := (not_or.1 hd').2
      simpa using hthrows

/-- **Carried originators.**  Outside the object hierarchy, a broker handle's originator is presented
to the read callbacks and carried by the parameter handles if and only if every visible parameter with
callbacks to be told is registered where its name is answered for and the handle's originator is the
one of outside the hierarchy, which can be had; and no handles come from a parent, or it is again that
originator. -/
theorem originator_carried_exact (L : ChainWatchers D)
    (I : Interp D (BrokerChain D.Param D.CciValue)) (w : ChainWorld D) (h : BrokerHandle ℕ)
    (hout : L.currentObject = none) :
    Carried L I w h ↔
      (∀ n p, (h.getParamHandle w.store.broker n).mParam = some p → ReadAs w h n p) ∧
        NoneAbove w h := by
  constructor
  · intro hc
    exact ⟨fun n p hp => (reads_iff hout n p).1 (hc.read n p hp), (handles_iff hout).1 hc.handles⟩
  · rintro ⟨hread, habove⟩
    have hhandles := (handles_iff (I := I) hout).2 habove
    refine ⟨fun n p hp => (reads_iff hout n p).2 (hread n p hp), fun n => ?_, hhandles, ?_⟩
    · rw [BrokerHandle.getParamHandle, getParamHandle_originator]
      exact BEq.rfl
    · intro pred r t hrun x hx
      obtain ⟨xs, hxs, hiter⟩ := BrokerHandle.getParamHandlesWith_ok hrun
      rw [hiter] at hx
      exact hhandles xs t hxs x (List.mem_of_mem_filter hx)

/-! ### A tool outside the hierarchy -/

/-- Client code outside the object hierarchy. -/
def outsideWatchers : ChainWatchers (natDesign Unit false) := ⟨fun _ => 0, fun _ _ => pure (), 0, none⟩

/-- A parameter of the global broker with a pre-read callback. -/
def readWorld (I : Interp (natDesign Unit false) (BrokerChain Unit ℕ)) :
    ChainWorld (natDesign Unit false) :=
  let chain : BrokerChain Unit ℕ := fun _ => {}
  let w := natWorld false (fun _ => "") (fun _ => 0) .unknown chain
  let w := (outsideWatchers.construct I () () ⟨"top.p", (5 : ℕ), .named "owner", 1⟩ w).2
  (onParam () (CciParamUntyped.registerCallback .preRead
    (some (.impl ⟨1, CallbackKind.preRead.signature 0⟩)) (.named "watcher")) w).2

/-- The handle of a tool on the global broker reads the parameter under the originator of nobody. -/
theorem originator_dropped :
    ¬∀ (L : ChainWatchers (natDesign Unit false))
      (I : Interp (natDesign Unit false) (BrokerChain Unit ℕ)) (w : ChainWorld (natDesign Unit false))
      (h : BrokerHandle ℕ), L.currentObject = none → Carried L I w h := by
  intro hall
  let I : Interp (natDesign Unit false) (BrokerChain Unit ℕ) := ⟨fun _ _ => Eff.diverge, 0⟩
  let h : BrokerHandle ℕ := ⟨0, .named "tool"⟩
  have hvalid : (h.getParamHandle (readWorld I).store.broker "top.p").mParam.isSome = true := by
    decide +kernel
  obtain ⟨⟨⟩, hp⟩ := Option.isSome_iff_exists.1 hvalid
  have htold : Told (readWorld I) () :=
    ⟨.preRead, .inl rfl, by decide +kernel, _, List.mem_singleton_self _, by decide +kernel⟩
  have hpresented : (ChainEnv.presented (outsideWatchers.env I (readWorld I)) h "top.p"
      (readWorld I)).map (fun x => x.2) = [.unknown] := by
    decide +kernel
  obtain ⟨o, ho, heq⟩ := (hall outsideWatchers I (readWorld I) h rfl).read "top.p" () hp htold
  rw [ho] at hpresented
  obtain rfl : o = .unknown := (List.cons.inj hpresented).1
  exact absurd heq (by decide)

/-- The handle of nobody reads it as it is. -/
theorem originator_carried_exact_nobody :
    let I : Interp (natDesign Unit false) (BrokerChain Unit ℕ) := ⟨fun _ _ => Eff.diverge, 0⟩
    let h : BrokerHandle ℕ := ⟨0, .unknown⟩
    Carried outsideWatchers I (readWorld I) h ↔
      (∀ n p, (h.getParamHandle (readWorld I).store.broker n).mParam = some p →
        ReadAs (readWorld I) h n p) ∧ NoneAbove (readWorld I) h :=
  originator_carried_exact outsideWatchers _ _ _ rfl

end ChainWatchers

end Cci
