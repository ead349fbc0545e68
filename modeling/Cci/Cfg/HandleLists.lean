import Cci.Lib.BackPointers
import Cci.Lib.Runs
import Cci.Cfg.ParamHandle

/-!
# The handle lists of the parameters are exact

A handle is in the list of a parameter exactly when it points to it, and then once.  All operations on
handles are made of one state change, `relink`, which moves the pointer of a handle together with its
list entry.

* `Exact` — the invariant; `Exact.relink` keeps it;
* `construct_run`, `copyConstruct_run`, `assign_run`, `invalidate_run` — the member functions of the
  handles are relinkings;
* `Completes`, `Leaves` — a computation returns, or is left by an exception at most, and follows its
  start state;
* `Exact.invalidateAllParamHandles` — the loop ends, since every round shortens the list;
* `HandleCmd.Fatal` — a construction that fails while a handle to the new parameter is kept, and a
  destruction that throws;
* `param_handles_exact` — the lists are exact, and destruction empties them, in the runs without such
  commands.
-/

namespace Cci

open Effect BackPointers

namespace HandleHeap

variable {H P : Type} [DecidableEq H] [DecidableEq P]

/-! ### Exact lists -/

/-- Where the handle at `h` points. -/
def target (s : HandleHeap H P) (h : H) : Option P := (s.handles h).bind (·.mParam)

/-- A handle is in the list of a parameter when it points to it, and then once. -/
def Exact (s : HandleHeap H P) : Prop := Inverse (target s) (back s)

/-- `h` is removed from every list. -/
def unlist (h : H) (s : HandleHeap H P) : HandleHeap H P :=
  { s with params := fun p => (s.params p).map fun obj =>
      { obj with mParamHandles := obj.mParamHandles.filter fun g => g ≠ h } }

/-- `h` is appended to the list of the parameter it points to. -/
def enlist (mParam : Option P) (h : H) (s : HandleHeap H P) : HandleHeap H P :=
  { s with params := fun p => (s.params p).map fun obj =>
      { obj with mParamHandles := obj.mParamHandles ++ if mParam = some p then [h] else [] } }

/-- `h` becomes the handle `x` with its entry moved accordingly. -/
def relink (h : H) (x : CciParamUntypedHandle P) (s : HandleHeap H P) : HandleHeap H P :=
  enlist x.mParam h (setHandle h (some x) (unlist h s))

@[simp] theorem handles_relink (h : H) (x : CciParamUntypedHandle P) (s : HandleHeap H P) :
    (relink h x s).handles = Function.update s.handles h (some x) := rfl

@[simp] theorem isSome_params_relink (h : H) (x : CciParamUntypedHandle P) (s : HandleHeap H P)
    (p : P) : ((relink h x s).params p).isSome = (s.params p).isSome := by
  simp [relink, enlist, unlist, setHandle]

theorem target_relink (h : H) (x : CciParamUntypedHandle P) (s : HandleHeap H P) :
    target (relink h x s) = Function.update (target s) h x.mParam := by
  funext g
  by_cases hg : g = h
  · subst hg; simp [target]
  · simp [target, hg]

theorem back_relink (h : H) {x : CciParamUntypedHandle P} {s : HandleHeap H P}
    (hx : ∀ p, x.mParam = some p → (s.params p).isSome) (p : P) :
    back (relink h x s) p
      = (back s p).filter (fun g => g ≠ h) ++ if x.mParam = some p then [h] else [] := by
  cases hp : s.params p with
  | none =>
    have hne : x.mParam ≠ some p := by
      intro hxp
      have hlive := hx p hxp
      simp [hp] at hlive
    simp [back, relink, enlist, unlist, setHandle, hp, hne]
  | some obj => simp [back, relink, enlist, unlist, setHandle, hp]

/-- Relinking keeps the lists exact. -/
protected theorem Exact.relink {s : HandleHeap H P} (hs : Exact s) (h : H) {x : CciParamUntypedHandle P}
    (hx : ∀ p, x.mParam = some p → (s.params p).isSome) : Exact (relink h x s) := by
  have hback : back (relink h x s)
      = fun p => (back s p).filter (fun g => g ≠ h) ++ if x.mParam = some p then [h] else [] :=
    funext (back_relink h hx)
  rw [Exact, target_relink, hback]
  exact hs.retarget h x.mParam

omit [DecidableEq H] [DecidableEq P] in
/-- A parameter pointed to is there. -/
theorem Exact.isSome_params {s : HandleHeap H P} (hs : Exact s) {h : H}
    {x : CciParamUntypedHandle P} (hh : s.handles h = some x) {p : P} (hp : x.mParam = some p) :
    (s.params p).isSome := by
  have hmem : h ∈ back s p := (hs.mem_iff h p).2 (by simp [target, hh, hp])
  cases hobj : s.params p with
  | none => simp [back, hobj] at hmem
  | some obj => rfl

/-! ### What the operations do -/

omit [DecidableEq P] in
/-- Removing `h` leaves the parameters alone that it does not point to. -/
theorem Exact.params_unlist {s : HandleHeap H P} (hs : Exact s) {h : H} {p : P}
    (hp : target s h ≠ some p) : (unlist h s).params p = s.params p := by
  cases hobj : s.params p with
  | none => simp [unlist, hobj]
  | some obj =>
    have hback := hs.filter_ne hp
    simp only [back, hobj, Option.map_some, Option.getD_some] at hback
    simp only [unlist, hobj, Option.map_some, hback]

omit [DecidableEq P] in
theorem Exact.unlist_eq_self {s : HandleHeap H P} (hs : Exact s) {h : H}
    (hh : target s h = none) : unlist h s = s := by
  have hparams : (unlist h s).params = s.params := by
    funext p
    exact hs.params_unlist (by simp [hh])
  calc unlist h s = { s with params := (unlist h s).params } := rfl
    _ = s := by rw [hparams]

omit [DecidableEq H] in
theorem enlist_none (h : H) (s : HandleHeap H P) : enlist none h s = s := by
  have hparams : (fun p => (s.params p).map fun obj : ParamObject H =>
      { obj with mParamHandles := obj.mParamHandles ++ if none = some p then [h] else [] })
        = s.params := by
    funext p
    cases s.params p <;> simp
  simp only [enlist]
  rw [hparams]

omit [DecidableEq H] in
theorem addToParam_run {s : HandleHeap H P} {mParam : Option P} (h : H)
    (hlive : ∀ p, mParam = some p → (s.params p).isSome) :
    addToParam mParam h s = (.ok (), enlist mParam h s) := by
  cases mParam with
  | none => rw [enlist_none]; rfl
  | some p =>
    obtain ⟨obj, hp⟩ := Option.isSome_iff_exists.1 (hlive p rfl)
    simp only [addToParam, addParamHandle, derefParam, Eff.bind_run, hp, Eff.modify_run]
    congr 1
    simp only [setParam, enlist]
    congr 1
    funext q
    by_cases hq : q = p
    · subst hq; simp [hp]
    · cases hobj : s.params q <;> simp [hq, Ne.symm hq, hobj]

theorem removeFromParam_run {s : HandleHeap H P} (hs : Exact s) {h : H}
    {x : CciParamUntypedHandle P} (hh : s.handles h = some x) :
    removeFromParam x.mParam h s = (.ok (), unlist h s) := by
  cases hx : x.mParam with
  | none =>
    rw [hs.unlist_eq_self (by simp [target, hh, hx])]
    rfl
  | some p =>
    obtain ⟨obj, hp⟩ := Option.isSome_iff_exists.1 (hs.isSome_params hh hx)
    simp only [removeFromParam, removeParamHandle, derefParam, Eff.bind_run, hp, Eff.modify_run]
    congr 1
    have hparams : (setParam p (some { obj with
        mParamHandles := obj.mParamHandles.filter fun g => g ≠ h }) s).params
          = (unlist h s).params := by
      funext q
      by_cases hq : q = p
      · subst hq; simp [setParam, unlist, hp]
      · rw [hs.params_unlist (by simp [target, hh, hx, Ne.symm hq])]
        simp [setParam, hq]
    calc setParam p _ s = { s with params := (setParam p _ s).params } := rfl
      _ = unlist h s := by rw [hparams]; rfl

/-! ### Runs of the member functions -/

/-- From `s` to `t`: the lists are exact, the same parameters are there, and so are the handles
except those that `lost` allows to be gone. -/
structure Follows (lost : H → Prop) (s t : HandleHeap H P) : Prop where
  exact : Exact t
  params : ∀ p, (t.params p).isSome = (s.params p).isSome
  handles : ∀ g, ¬ lost g → (s.handles g).isSome → (t.handles g).isSome

omit [DecidableEq H] [DecidableEq P] in
theorem Follows.trans {lost : H → Prop} {s t u : HandleHeap H P} (h₁ : Follows lost s t)
    (h₂ : Follows lost t u) : Follows lost s u where
  exact := h₂.exact
  params p := (h₂.params p).trans (h₁.params p)
  handles g hg hs := h₂.handles g hg (h₁.handles g hg hs)

omit [DecidableEq H] [DecidableEq P] in
theorem Follows.mono {lost lost' : H → Prop} {s t : HandleHeap H P} (h : Follows lost s t)
    (hl : ∀ g, (s.handles g).isSome → lost g → lost' g) : Follows lost' s t where
  exact := h.exact
  params := h.params
  handles g hg hs := h.handles g (fun hlost => hg (hl g hs hlost)) hs

theorem Exact.follows_relink {s : HandleHeap H P} (hs : Exact s) (h : H)
    {x : CciParamUntypedHandle P} (hx : ∀ p, x.mParam = some p → (s.params p).isSome) :
    Follows (fun _ => False) s (relink h x s) where
  exact := hs.relink h hx
  params := isSome_params_relink h x s
  handles g _ hg := by
    by_cases hgh : g = h
    · subst hgh; simp
    · simpa [hgh] using hg

/-- A new handle. -/
theorem construct_run {s : HandleHeap H P} (hs : Exact s) {h : H} {p : P}
    (originator : CciOriginator) (hh : s.handles h = none) (hp : (s.params p).isSome) :
    construct h p originator s = (.ok (), relink h ⟨some p, originator⟩ s) := by
  rw [relink, hs.unlist_eq_self (by simp [target, hh])]
  have hlive : ∀ q, some p = some q →
      ((setHandle h (some ⟨some p, originator⟩) s).params q).isSome := by
    rintro q ⟨rfl⟩
    exact hp
  exact addToParam_run h hlive

theorem constructInvalid_run {s : HandleHeap H P} (hs : Exact s) {h : H}
    (originator : CciOriginator) (hh : s.handles h = none) :
    constructInvalid h originator s = (.ok (), relink h ⟨none, originator⟩ s) := by
  rw [relink, hs.unlist_eq_self (by simp [target, hh]), enlist_none]
  rfl

theorem copyConstruct_run {s : HandleHeap H P} (hs : Exact s) {h src : H}
    {x : CciParamUntypedHandle P} (hh : s.handles h = none) (hx : s.handles src = some x) :
    copyConstruct h src s
      = (.ok (), relink h ⟨x.mParam, promoteOriginator x.mOriginator s⟩ s) := by
  rw [relink, hs.unlist_eq_self (by simp [target, hh])]
  simp only [copyConstruct, deref, Eff.bind_run, hx, Eff.modify_run]
  exact addToParam_run h fun p hp => hs.isSome_params hx hp

theorem invalidate_run {s : HandleHeap H P} (hs : Exact s) {h : H} {x : CciParamUntypedHandle P}
    (hx : s.handles h = some x) :
    invalidate h s = (.ok (), relink h { x with mParam := none } s) := by
  rw [relink, enlist_none]
  simp only [invalidate, deref, Eff.bind_run, hx, removeFromParam_run hs hx, Eff.modify_run]

/-- Assigning a handle; from itself nothing happens. -/
theorem assign_run {s : HandleHeap H P} (hs : Exact s) {h src : H} {x y : CciParamUntypedHandle P}
    (hne : h ≠ src) (hx : s.handles h = some x) (hy : s.handles src = some y) :
    assign h src s = (.ok (), relink h { x with mParam := y.mParam } s) := by
  have hy' : (unlist h s).handles src = some y := hy
  simp only [assign, if_neg hne, deref, Eff.bind_run, hx, removeFromParam_run hs hx, hy',
    Eff.modify_run]
  refine addToParam_run h fun p hp => ?_
  simpa [setHandle, unlist] using hs.isSome_params hy hp

/-- `m` returns in a state that follows `s`. -/
def Completes (lost : H → Prop) (m : HandleM H P Unit) (s : HandleHeap H P) : Prop :=
  ∃ t, m s = (.ok (), t) ∧ Follows lost s t

omit [DecidableEq H] [DecidableEq P] in
theorem Completes.bind {lost : H → Prop} {m : HandleM H P Unit} {f : Unit → HandleM H P Unit}
    {s : HandleHeap H P} (hm : Completes lost m s)
    (hf : ∀ t, m s = (.ok (), t) → Follows lost s t → Completes lost (f ()) t) :
    Completes lost (m >>= f) s := by
  obtain ⟨t, hrun, ht⟩ := hm
  obtain ⟨u, hrun', hu⟩ := hf t hrun ht
  exact ⟨u, (Eff.bind_run_ok hrun f).trans hrun', ht.trans hu⟩

omit [DecidableEq H] [DecidableEq P] in
theorem Completes.mono {lost lost' : H → Prop} {m : HandleM H P Unit} {s : HandleHeap H P}
    (h : Completes lost m s) (hl : ∀ g, (s.handles g).isSome → lost g → lost' g) :
    Completes lost' m s := by
  obtain ⟨t, hrun, ht⟩ := h
  exact ⟨t, hrun, ht.mono hl⟩

omit [DecidableEq H] [DecidableEq P] in
theorem Exact.follows_refl {s : HandleHeap H P} (hs : Exact s) : Follows (fun _ => False) s s :=
  ⟨hs, fun _ => rfl, fun _ _ h => h⟩

theorem Exact.completes_relink {s : HandleHeap H P} (hs : Exact s) {h : H}
    {x : CciParamUntypedHandle P} {m : HandleM H P Unit}
    (hx : ∀ p, x.mParam = some p → (s.params p).isSome) (hrun : m s = (.ok (), relink h x s)) :
    Completes (fun _ => False) m s :=
  ⟨_, hrun, hs.follows_relink h hx⟩

theorem Exact.completes_copyConstruct {s : HandleHeap H P} (hs : Exact s) {h src : H}
    (hh : s.handles h = none) (hsrc : (s.handles src).isSome) :
    Completes (fun _ => False) (copyConstruct h src) s := by
  obtain ⟨x, hx⟩ := Option.isSome_iff_exists.1 hsrc
  refine hs.completes_relink ?_ (copyConstruct_run hs hh hx)
  exact fun p hp => hs.isSome_params hx hp

theorem Exact.completes_assign {s : HandleHeap H P} (hs : Exact s) {h src : H}
    (hh : (s.handles h).isSome) (hsrc : (s.handles src).isSome) :
    Completes (fun _ => False) (assign h src) s := by
  obtain ⟨x, hx⟩ := Option.isSome_iff_exists.1 hh
  obtain ⟨y, hy⟩ := Option.isSome_iff_exists.1 hsrc
  by_cases hne : h = src
  · exact ⟨s, by simp [assign, hne], hs.follows_refl⟩
  · refine hs.completes_relink ?_ (assign_run hs hne hx hy)
    exact fun p hp => hs.isSome_params hy hp

theorem Exact.completes_invalidate {s : HandleHeap H P} (hs : Exact s) {h : H}
    (hh : (s.handles h).isSome) : Completes (fun _ => False) (invalidate h) s := by
  obtain ⟨x, hx⟩ := Option.isSome_iff_exists.1 hh
  exact hs.completes_relink (fun p hp => by cases hp) (invalidate_run hs hx)

theorem Exact.completes_destruct {s : HandleHeap H P} (hs : Exact s) {h : H}
    (hh : (s.handles h).isSome) : Completes (fun g => g = h) (destruct h) s := by
  obtain ⟨x, hx⟩ := Option.isSome_iff_exists.1 hh
  refine ⟨_, Eff.bind_run_ok (invalidate_run hs hx) _, ?_⟩
  have hex : Exact (relink h { x with mParam := none } s) :=
    hs.relink h fun p hp => by cases hp
  refine ⟨?_, isSome_params_relink h _ s, fun g hg hlive => ?_⟩
  · -- an invalid handle is in no list
    have htarget : target (setHandle h none (relink h { x with mParam := none } s))
        = target (relink h { x with mParam := none } s) := by
      funext g
      by_cases hgh : g = h
      · subst hgh; simp [target, setHandle]
      · simp [target, setHandle, hgh]
    show Inverse (target (setHandle h none _)) _
    rw [htarget]
    exact hex
  · simpa [setHandle, hg] using hlive

/-- The type check of a typed handle. -/
theorem Exact.completes_typeCheck {s : HandleHeap H P} (hs : Exact s) {h : H}
    (typeId : ℕ) (hh : (s.handles h).isSome) :
    Completes (fun _ => False) (typeCheck h typeId) s := by
  obtain ⟨x, hx⟩ := Option.isSome_iff_exists.1 hh
  simp only [Completes, typeCheck, deref, Eff.bind_run, hx]
  cases hp : x.mParam with
  | none => exact ⟨s, rfl, hs.follows_refl⟩
  | some p =>
    obtain ⟨obj, hobj⟩ := Option.isSome_iff_exists.1 (hs.isSome_params hx hp)
    simp only [derefParam, Eff.bind_run, hobj]
    split
    · exact hs.completes_invalidate hh
    · exact ⟨s, rfl, hs.follows_refl⟩

theorem Exact.completes_typedConstruct {s : HandleHeap H P} (hs : Exact s) {h untyped : H}
    (typeId : ℕ) (hh : s.handles h = none) (hu : (s.handles untyped).isSome) :
    Completes (fun _ => False) (typedConstruct h untyped typeId) s := by
  refine (hs.completes_copyConstruct hh hu).bind fun t hrun ht => ?_
  obtain ⟨x, hx⟩ := Option.isSome_iff_exists.1 hu
  rw [copyConstruct_run hs hh hx] at hrun
  obtain rfl := (Prod.mk.inj hrun).2
  exact ht.exact.completes_typeCheck typeId (by simp)

theorem Exact.completes_paramCast {s : HandleHeap H P} (hs : Exact s) {h untyped arg : H}
    (typeId : ℕ) (hh : s.handles h = none) (harg : s.handles arg = none) (hne : h ≠ arg)
    (hu : (s.handles untyped).isSome) :
    Completes (fun _ => False) (paramCast h untyped arg typeId) s := by
  have hcast : Completes (fun g => g = arg) (paramCast h untyped arg typeId) s := by
    refine ((hs.completes_copyConstruct harg hu).mono (by simp)).bind fun t hrun ht => ?_
    obtain ⟨x, hx⟩ := Option.isSome_iff_exists.1 hu
    rw [copyConstruct_run hs harg hx] at hrun
    obtain rfl := (Prod.mk.inj hrun).2
    obtain ⟨u, hrun', hu'⟩ : Completes (fun _ => False) (typedConstruct h arg typeId) _ :=
      ht.exact.completes_typedConstruct typeId (by simp [hne, hh]) (by simp)
    have hlive : (u.handles arg).isSome := hu'.handles arg not_false (by simp)
    obtain ⟨v, hrun'', hv⟩ := hu'.exact.completes_destruct hlive
    exact ⟨v, (Eff.bind_run_ok hrun' _).trans hrun'', (hu'.mono (by simp)).trans hv⟩
  -- the temporary argument was not there before
  exact hcast.mono fun g hg hga => by simp [hga, harg] at hg

/-- Every operation that is issued returns and keeps the lists exact. -/
theorem Exact.completes_exec {s : HandleHeap H P} (hs : Exact s) (op : HandleOp H P) :
    Completes (fun g => op.destructs g = true) op.exec s := by
  by_cases hen : op.enabled s = true
  · have hrun : op.exec s = op.run s := if_pos hen
    suffices h : Completes (fun g => op.destructs g = true) op.run s by
      simpa only [Completes, hrun] using h
    cases op with
    | construct h p originator =>
      simp only [HandleOp.enabled, Bool.and_eq_true, Option.isNone_iff_eq_none] at hen
      refine (hs.completes_relink ?_ (construct_run hs originator hen.1 hen.2)).mono (by simp)
      rintro q ⟨rfl⟩
      exact hen.2
    | constructInvalid h originator =>
      simp only [HandleOp.enabled, Option.isNone_iff_eq_none] at hen
      exact (hs.completes_relink (by simp) (constructInvalid_run hs originator hen)).mono (by simp)
    | copyConstruct h paramHandle =>
      simp only [HandleOp.enabled, Bool.and_eq_true, Option.isNone_iff_eq_none] at hen
      exact (hs.completes_copyConstruct hen.1 hen.2).mono (by simp)
    | assign h paramHandle =>
      simp only [HandleOp.enabled, Bool.and_eq_true] at hen
      exact (hs.completes_assign hen.1 hen.2).mono (by simp)
    | invalidate h => exact (hs.completes_invalidate hen).mono (by simp)
    | destruct h =>
      refine (hs.completes_destruct hen).mono fun g _ hg => ?_
      simp [HandleOp.destructs, hg]
    | typedConstruct h untyped typeId =>
      simp only [HandleOp.enabled, Bool.and_eq_true, Option.isNone_iff_eq_none] at hen
      exact (hs.completes_typedConstruct typeId hen.1 hen.2).mono (by simp)
    | paramCast h untyped arg typeId =>
      simp only [HandleOp.enabled, Bool.and_eq_true, Option.isNone_iff_eq_none,
        decide_eq_true_eq] at hen
      obtain ⟨⟨⟨hh, harg⟩, hne⟩, hu⟩ := hen
      exact (hs.completes_paramCast typeId hh harg hne hu).mono (by simp)
    | setCurrentObject obj => exact ⟨_, rfl, hs, fun _ => rfl, fun _ _ h => h⟩
  · exact ⟨s, if_neg hen, hs.follows_refl.mono (by simp)⟩

/-! ### Invalidating all handles of a parameter -/

/-- From `s` to `t` handles changed only by losing their pointer to `p`. -/
def Invalidated (p : P) (s t : HandleHeap H P) : Prop :=
  ∀ g, t.handles g = s.handles g ∨
    ∃ x, s.handles g = some x ∧ x.mParam = some p ∧ t.handles g = some { x with mParam := none }

omit [DecidableEq H] [DecidableEq P] in
theorem Invalidated.refl (p : P) (s : HandleHeap H P) : Invalidated p s s := fun _ => .inl rfl

omit [DecidableEq H] [DecidableEq P] in
theorem Invalidated.trans {p : P} {s t u : HandleHeap H P} (h₁ : Invalidated p s t)
    (h₂ : Invalidated p t u) : Invalidated p s u := by
  intro g
  rcases h₁ g with hst | ⟨x, hx, hp, ht⟩
  · rcases h₂ g with htu | ⟨y, hy, hp, hu⟩
    · exact .inl (htu.trans hst)
    · exact .inr ⟨y, hst ▸ hy, hp, hu⟩
  · rcases h₂ g with htu | ⟨y, hy, hp', hu⟩
    · exact .inr ⟨x, hx, hp, htu.trans ht⟩
    · -- an invalid handle does not point to `p`
      rw [ht] at hy
      obtain rfl := Option.some.inj hy
      cases hp'

/-- The body of the loop: the front handle loses its pointer and leaves the list. -/
theorem Exact.invalidateFront {s : HandleHeap H P} (hs : Exact s) {p : P} (hne : back s p ≠ []) :
    ∃ t, invalidateFront p s = (.ok (), t) ∧ Follows (fun _ => False) s t ∧ Invalidated p s t ∧
      (back t p).length < (back s p).length := by
  cases hobj : s.params p with
  | none => simp [back, hobj] at hne
  | some obj =>
    cases hl : obj.mParamHandles with
    | nil => simp [back, hobj, hl] at hne
    | cons h rest =>
      have hmem : h ∈ back s p := by simp [back, hobj, hl]
      have htarget : target s h = some p := (hs.mem_iff h p).1 hmem
      obtain ⟨x, hx, hp⟩ := Option.bind_eq_some_iff.1 htarget
      refine ⟨relink h { x with mParam := none } s, ?_, hs.follows_relink h (by simp), ?_, ?_⟩
      · simp only [HandleHeap.invalidateFront, derefParam, Eff.bind_run, hobj, hl]
        exact invalidate_run hs hx
      · intro g
        by_cases hg : g = h
        · subst hg
          exact .inr ⟨x, hx, hp, by simp⟩
        · exact .inl (by simp [hg])
      · rw [back_relink h (by simp)]
        simp only [reduceCtorEq, if_false, List.append_nil]
        exact List.length_filter_lt_length_iff_exists.2 ⟨h, hmem, by simp⟩

/-- The loop ends: each round shortens the list. -/
theorem Exact.invalidateAllParamHandles {s : HandleHeap H P} (hs : Exact s) (p : P) {fuel : ℕ}
    (hfuel : (back s p).length ≤ fuel) :
    ∃ t, invalidateAllParamHandles fuel p s = (.ok (), t) ∧ Follows (fun _ => False) s t ∧
      Invalidated p s t ∧ back t p = [] := by
  have hloop := whileDo_triple (c := fun s => !(back s p).isEmpty)
    (m := HandleHeap.invalidateFront p)
    (P := fun t => Follows (fun _ => False) s t ∧ Invalidated p s t)
    (fun t => (back t p).length) (by
      rintro t ⟨ht, hinv⟩ hc
      have hne : back t p ≠ [] := by simpa using hc
      obtain ⟨u, hrun, hu, hinv', hlt⟩ := ht.exact.invalidateFront hne
      exact ⟨u, hrun, ⟨ht.trans hu, hinv.trans hinv'⟩, hlt⟩) fuel
  obtain ⟨_, t, hrun, ⟨ht, hinv⟩, hc⟩ := hloop s ⟨⟨hs.follows_refl, Invalidated.refl p s⟩, hfuel⟩
  exact ⟨t, hrun, ht, hinv, by simpa using hc⟩

omit [DecidableEq H] [DecidableEq P] in
/-- Once no list entry is left, no handle points to `p`. -/
theorem Exact.mParam_ne {s : HandleHeap H P} (hs : Exact s) {p : P} (hp : back s p = []) {h : H}
    {x : CciParamUntypedHandle P} (hx : s.handles h = some x) : x.mParam ≠ some p := by
  intro hxp
  have hmem : h ∈ back s p := (hs.mem_iff h p).2 (by simp [target, hx, hxp])
  simp [hp] at hmem

omit [DecidableEq H] [DecidableEq P] in
/-- The handles that pointed to `p` are invalid. -/
theorem Invalidated.isValid {p : P} {s t : HandleHeap H P} (hinv : Invalidated p s t)
    (ht : Exact t) (hp : back t p = []) {h : H} {x : CciParamUntypedHandle P}
    (hx : s.handles h = some x) (hxp : x.mParam = some p) :
    ∃ y, t.handles h = some y ∧ y.isValid = false := by
  rcases hinv h with hsame | ⟨y, -, -, hy⟩
  · exact absurd hxp (ht.mParam_ne hp (hsame.trans hx))
  · exact ⟨_, hy, rfl⟩

/-! ### Construction and destruction of parameters -/

/-- `m` returns or throws, in a state that follows `s`. -/
def Leaves (lost : H → Prop) (m : HandleM H P Unit) (s : HandleHeap H P) : Prop :=
  ((∃ t, m s = (.ok (), t)) ∨ ∃ e t, m s = (.throw e, t)) ∧ Follows lost s (m s).2

/-- The body of a create or destroy callback of an existing parameter. -/
theorem Exact.completes_called {s : HandleHeap H P} (hs : Exact s) {p : P}
    (hp : (s.params p).isSome) {cb : ParamCallback H P} (htemp : s.handles cb.temporary = none) :
    Completes (fun _ => True) (called p cb) s := by
  obtain ⟨obj, hobj⟩ := Option.isSome_iff_exists.1 hp
  have hbuilt := construct_run hs obj.mOriginator htemp hp
  have hfollows := hs.follows_relink cb.temporary (x := ⟨some p, obj.mOriginator⟩)
    (by rintro q ⟨rfl⟩; exact hp)
  -- the body may destruct any handle but the temporary
  obtain ⟨_, t, hbody, ht⟩ := Triple.forM
    (P := fun t => Follows (fun g => g ≠ cb.temporary)
      (relink cb.temporary ⟨some p, obj.mOriginator⟩ s) t)
    (cb.body.filter fun op => !op.destructs cb.temporary) (by
      intro op hop u hu
      obtain ⟨v, hrun, hv⟩ := hu.exact.completes_exec op
      refine ⟨(), v, hrun, hu.trans (hv.mono fun g _ hg hgt => ?_)⟩
      subst hgt
      simp [hg] at hop)
    _ (hfollows.exact.follows_refl.mono (by simp))
  have hlive : (t.handles cb.temporary).isSome := ht.handles _ (by simp) (by simp)
  obtain ⟨u, hend, hu⟩ := ht.exact.completes_destruct hlive
  refine ⟨u, ?_, ((hfollows.mono (by simp)).trans (ht.mono (by simp))).trans (hu.mono (by simp))⟩
  simp only [called, derefParam, Eff.bind_run, hobj, hbuilt]
  exact (Eff.bind_run_ok hbody _).trans hend

/-- Calling one. -/
theorem Exact.leaves_invoke {s : HandleHeap H P} (hs : Exact s) {p : P}
    (hp : (s.params p).isSome) (cb : ParamCallback H P) :
    Leaves (fun _ => True) (invoke p cb) s := by
  cases htemp : s.handles cb.temporary with
  | some x =>
    have hrun : invoke p cb s = (.ok (), s) := if_neg (by simp [htemp])
    refine ⟨.inl ⟨s, hrun⟩, ?_⟩
    rw [hrun]
    exact hs.follows_refl.mono (by simp)
  | none =>
    obtain ⟨t, hcalled, ht⟩ := hs.completes_called hp htemp
    have hrun : invoke p cb s = raiseIf cb.raises t :=
      (if_pos (by simp [htemp])).trans (Eff.bind_run_ok hcalled _)
    cases hraises : cb.raises with
    | none =>
      rw [hraises] at hrun
      refine ⟨.inl ⟨t, hrun⟩, ?_⟩
      rw [hrun]
      exact ht
    | some e =>
      rw [hraises] at hrun
      refine ⟨.inr ⟨e, t, hrun⟩, ?_⟩
      rw [hrun]
      exact ht

/-- Calling all callbacks of one kind, up to the first that throws. -/
theorem Exact.leaves_callbacks {s : HandleHeap H P} (hs : Exact s) {p : P}
    (hp : (s.params p).isSome) (cbs : List (ParamCallback H P)) :
    Leaves (fun _ => True) (cbs.forM (invoke p)) s := by
  induction cbs generalizing s with
  | nil => exact ⟨.inl ⟨s, rfl⟩, hs.follows_refl.mono (by simp)⟩
  | cons cb cbs ih =>
    obtain ⟨ho, ht⟩ := hs.leaves_invoke hp cb
    rcases ho with ⟨t, hrun⟩ | ⟨e, t, hrun⟩
    · rw [hrun] at ht
      have hrest : (cb :: cbs).forM (invoke p) s = cbs.forM (invoke p) t := Eff.bind_run_ok hrun _
      obtain ⟨ho, hu⟩ := ih ht.exact ((ht.params p).trans hp)
      rw [Leaves, hrest]
      exact ⟨ho, ht.trans hu⟩
    · rw [hrun] at ht
      have hthrow : (cb :: cbs).forM (invoke p) s = (.throw e, t) := Eff.bind_run_throw hrun _
      rw [Leaves, hthrow]
      exact ⟨.inr ⟨e, t, rfl⟩, ht⟩

omit [DecidableEq H] in
/-- A parameter without handles to it may appear or disappear. -/
theorem Exact.setParam {s : HandleHeap H P} (hs : Exact s) {p : P} (hp : back s p = [])
    {obj : Option (ParamObject H)} (hobj : (obj.map (·.mParamHandles)).getD [] = []) :
    Exact (setParam p obj s) := by
  have hback : back (HandleHeap.setParam p obj s) = back s := by
    funext q
    by_cases hq : q = p
    · subst hq; simpa [back, HandleHeap.setParam, hobj] using hp.symm
    · simp [back, HandleHeap.setParam, hq]
  show Inverse (target s) (back (HandleHeap.setParam p obj s))
  rw [hback]
  exact hs

omit [DecidableEq H] in
/-- The destructor of the base class, with the assertion on the list. -/
theorem destructUntyped_run {s : HandleHeap H P} {p : P} (hp : (s.params p).isSome) :
    destructUntyped p s =
      if back s p = [] then (.ok (), HandleHeap.setParam p none s) else (.abort, s) := by
  obtain ⟨obj, hobj⟩ := Option.isSome_iff_exists.1 hp
  have hback : back s p = obj.mParamHandles := by simp [back, hobj]
  rw [hback]
  simp only [destructUntyped, derefParam, Eff.bind_run, hobj, List.isEmpty_iff]
  split <;> rfl

/-- The object of a parameter under construction. -/
def withParam (p : P) (typeInfo : ℕ) (originator : CciOriginator) (s : HandleHeap H P) :
    HandleHeap H P :=
  HandleHeap.setParam p (some { typeInfo := typeInfo, mOriginator := originator }) s

/-- An exception of a create callback leaves the constructor, and the list of the new parameter is not
empty. -/
def FailsListed (p : P) (typeInfo : ℕ) (originator : CciOriginator) (presetFailure : Option Report)
    (createCallbacks : List (ParamCallback H P)) (s : HandleHeap H P) : Prop :=
  presetFailure = none ∧ ∃ e t,
    createCallbacks.forM (invoke p) (withParam p typeInfo originator s) = (.throw e, t) ∧
      back t p ≠ []

/-- A construction stops at the assertion if it fails with a list that is not empty; any other comes
back with exact lists. -/
theorem Exact.constructParam {s : HandleHeap H P} (hs : Exact s) {p : P} (hp : s.params p = none)
    (typeInfo : ℕ) (originator : CciOriginator) (presetFailure : Option Report)
    (createCallbacks : List (ParamCallback H P)) :
    let m := constructParam p typeInfo originator presetFailure createCallbacks
    (FailsListed p typeInfo originator presetFailure createCallbacks s → (m s).1 = .abort) ∧
      (¬FailsListed p typeInfo originator presetFailure createCallbacks s →
        (m s).1.returned = true ∧ Exact (m s).2) := by
  intro m
  have hnew : Exact (withParam p typeInfo originator s) := hs.setParam (by simp [back, hp]) rfl
  have hlive : ((withParam p typeInfo originator s).params p).isSome := by
    simp [withParam, HandleHeap.setParam]
  cases presetFailure with
  | some e =>
    have hempty : back (withParam p typeInfo originator s) p = [] := by
      simp [back, withParam, HandleHeap.setParam]
    have hdestruct := destructUntyped_run hlive
    rw [if_pos hempty] at hdestruct
    have hrun : m s = (.throw e, HandleHeap.setParam p none (withParam p typeInfo originator s)) := by
      show (destructUntyped p >>= fun _ => Eff.raise e) (withParam p typeInfo originator s) = _
      rw [Eff.bind_run_ok hdestruct]
      rfl
    rw [hrun]
    refine ⟨?_, fun _ => ⟨rfl, hnew.setParam hempty rfl⟩⟩
    rintro ⟨hnone, -⟩
    cases hnone
  | none =>
    obtain ⟨ho, ht⟩ := hnew.leaves_callbacks hlive createCallbacks
    rcases ho with ⟨t, hcalls⟩ | ⟨e, t, hcalls⟩
    · have hrun : m s = (.ok (), t) := by
        show ((Eff.attempt (raiseIf none >>= fun _ => createCallbacks.forM (invoke p))) >>= _)
          (withParam p typeInfo originator s) = _
        rw [Eff.bind_run, Eff.attempt, raiseIf, Eff.pure_bind_run, hcalls]
        rfl
      rw [hcalls] at ht
      rw [hrun]
      refine ⟨?_, fun _ => ⟨rfl, ht.exact⟩⟩
      rintro ⟨-, e, t', hthrow, -⟩
      cases hcalls.symm.trans hthrow
    · rw [hcalls] at ht
      have hdestruct := destructUntyped_run ((ht.params p).trans hlive)
      have hrun : m s = (destructUntyped p >>= fun _ => Eff.raise e) t := by
        show ((Eff.attempt (raiseIf none >>= fun _ => createCallbacks.forM (invoke p))) >>= _)
          (withParam p typeInfo originator s) = _
        rw [Eff.bind_run, Eff.attempt, raiseIf, Eff.pure_bind_run, hcalls]
      by_cases hempty : back t p = []
      · rw [if_pos hempty] at hdestruct
        rw [hrun, Eff.bind_run_ok hdestruct]
        refine ⟨?_, fun _ => ⟨rfl, ht.exact.setParam hempty rfl⟩⟩
        rintro ⟨-, e', t', hthrow, hne⟩
        cases hcalls.symm.trans hthrow
        exact absurd hempty hne
      · rw [if_neg hempty] at hdestruct
        rw [hrun, Eff.bind_run, hdestruct]
        exact ⟨fun _ => rfl, fun h => absurd ⟨rfl, e, t, hcalls, hempty⟩ h⟩

/-- The destruction of a parameter whose destroy callbacks return: after them, in the state `t`, all
handles to it become invalid, and the assertion on the empty list holds. -/
theorem Exact.destructParam {s t : HandleHeap H P} (hs : Exact s) {p : P} (hp : (s.params p).isSome)
    {destroyCallbacks : List (ParamCallback H P)}
    (hcalls : destroyCallbacks.forM (invoke p) s = (.ok (), t)) :
    ∃ u, Exact t ∧ Exact u ∧ destroy p destroyCallbacks s = (.ok (), u) ∧ back u p = [] ∧
      Invalidated p t u ∧
      destructParam p destroyCallbacks s = (.ok (), HandleHeap.setParam p none u) := by
  have ht := (hs.leaves_callbacks hp destroyCallbacks).2
  rw [hcalls] at ht
  obtain ⟨u, hloop, hu, hinv, hempty⟩ := ht.exact.invalidateAllParamHandles p le_rfl
  have hdestroy : destroy p destroyCallbacks s = (.ok (), u) :=
    (Eff.bind_run_ok hcalls _).trans hloop
  refine ⟨u, ht.exact, hu.exact, hdestroy, hempty, hinv, ?_⟩
  have hdestruct := destructUntyped_run ((hu.params p).trans ((ht.params p).trans hp))
  rw [if_pos hempty] at hdestruct
  rw [HandleHeap.destructParam, Eff.bind_run, Eff.attempt, hdestroy]
  exact hdestruct

/-- A destroy callback that throws ends the program. -/
theorem destructParam_throw {s t : HandleHeap H P} {p : P} {e : Report}
    {destroyCallbacks : List (ParamCallback H P)}
    (hcalls : destroyCallbacks.forM (invoke p) s = (.throw e, t)) :
    destructParam p destroyCallbacks s = (.abort, t) := by
  have hdestroy : destroy p destroyCallbacks s = (.throw e, t) := Eff.bind_run_throw hcalls _
  rw [HandleHeap.destructParam, Eff.bind_run, Eff.attempt, hdestroy]
  rfl

end HandleHeap

open HandleHeap in
/-- The command constructs a parameter, an exception of a create callback leaves the constructor, and a
handle to the parameter is kept; or it destroys one, and a destroy callback throws. -/
def HandleCmd.Fatal {H P : Type} [DecidableEq H] [DecidableEq P] (s : HandleHeap H P) :
    HandleCmd H P → Prop
  | .onHandles _ => False
  | .constructParam p typeInfo originator presetFailure createCallbacks =>
      s.params p = none ∧ presetFailure = none ∧
        ∃ e t, createCallbacks.forM (invoke p) (withParam p typeInfo originator s) = (.throw e, t) ∧
          ∃ h x, t.handles h = some x ∧ x.mParam = some p
  | .destructParam p destroyCallbacks =>
      (s.params p).isSome = true ∧ ∃ e t, destroyCallbacks.forM (invoke p) s = (.throw e, t)

namespace HandleHeap

variable {H P : Type} [DecidableEq H] [DecidableEq P]

omit [DecidableEq H] [DecidableEq P] in
/-- A handle to `p` is in its list. -/
theorem Exact.back_ne_nil_iff {s : HandleHeap H P} (hs : Exact s) (p : P) :
    back s p ≠ [] ↔ ∃ h x, s.handles h = some x ∧ x.mParam = some p := by
  constructor
  · intro hne
    obtain ⟨h, hmem⟩ := List.exists_mem_of_ne_nil _ hne
    obtain ⟨x, hx, hp⟩ := Option.bind_eq_some_iff.1 ((hs.mem_iff h p).1 hmem)
    exact ⟨h, x, hx, hp⟩
  · rintro ⟨h, x, hx, hp⟩ hnil
    exact hs.mParam_ne hnil hx hp

/-- The step lemma: a command stops the program if it is fatal, and otherwise comes back and keeps the
lists exact. -/
theorem Exact.exec {s : HandleHeap H P} (hs : Exact s) (c : HandleCmd H P) :
    (c.Fatal s → (c.exec s).1 = .abort) ∧
      (¬c.Fatal s → (c.exec s).1.returned = true ∧ Exact (c.exec s).2) := by
  cases c with
  | onHandles op =>
    refine ⟨fun h => h.elim, fun _ => ?_⟩
    obtain ⟨t, hrun, ht⟩ := hs.completes_exec op
    rw [show (HandleCmd.onHandles op).exec s = (.ok (), t) from hrun]
    exact ⟨rfl, ht.exact⟩
  | constructParam p typeInfo originator presetFailure createCallbacks =>
    cases hp : s.params p with
    | some obj =>
      have hrun : (HandleCmd.constructParam p typeInfo originator presetFailure
          createCallbacks).exec s = (.ok (), s) := if_neg (by simp [hp])
      rw [hrun]
      refine ⟨?_, fun _ => ⟨rfl, hs⟩⟩
      rintro ⟨habsent, -⟩
      cases hp.symm.trans habsent
    | none =>
      have hrun : (HandleCmd.constructParam p typeInfo originator presetFailure
          createCallbacks).exec s =
            HandleHeap.constructParam p typeInfo originator presetFailure createCallbacks s :=
        if_pos (by simp [hp])
      have hnew : Exact (withParam p typeInfo originator s) := hs.setParam (by simp [back, hp]) rfl
      have hlive : ((withParam p typeInfo originator s).params p).isSome := by
        simp [withParam, HandleHeap.setParam]
      have hkept : ∀ e t, createCallbacks.forM (invoke p) (withParam p typeInfo originator s) =
          (.throw e, t) → (back t p ≠ [] ↔ ∃ h x, t.handles h = some x ∧ x.mParam = some p) := by
        intro e t hcalls
        have ht := (hnew.leaves_callbacks hlive createCallbacks).2
        rw [hcalls] at ht
        exact ht.exact.back_ne_nil_iff p
      have hcases := hs.constructParam hp typeInfo originator presetFailure createCallbacks
      rw [hrun]
      refine ⟨?_, fun hfatal => hcases.2 ?_⟩
      · rintro ⟨-, hpreset, e, t, hcalls, hhandle⟩
        exact hcases.1 ⟨hpreset, e, t, hcalls, (hkept e t hcalls).2 hhandle⟩
      · rintro ⟨hpreset, e, t, hcalls, hne⟩
        exact hfatal ⟨hp, hpreset, e, t, hcalls, (hkept e t hcalls).1 hne⟩
  | destructParam p destroyCallbacks =>
    cases hp : s.params p with
    | none =>
      have hrun : (HandleCmd.destructParam p destroyCallbacks).exec s = (.ok (), s) :=
        if_neg (by simp [hp])
      rw [hrun]
      refine ⟨?_, fun _ => ⟨rfl, hs⟩⟩
      rintro ⟨hlive, -⟩
      rw [hp] at hlive
      cases hlive
    | some obj =>
      have hlive : (s.params p).isSome = true := by rw [hp]; rfl
      have hrun : (HandleCmd.destructParam p destroyCallbacks).exec s =
          HandleHeap.destructParam p destroyCallbacks s := if_pos hlive
      rw [hrun]
      constructor
      · rintro ⟨-, e, t, hcalls⟩
        rw [destructParam_throw hcalls]
      · intro hfatal
        rcases (hs.leaves_callbacks hlive destroyCallbacks).1 with ⟨t, hcalls⟩ | ⟨e, t, hcalls⟩
        · obtain ⟨u, -, hu, -, hempty, -, hdestruct⟩ := hs.destructParam hlive hcalls
          rw [hdestruct]
          exact ⟨rfl, hu.setParam hempty rfl⟩
        · exact (hfatal ⟨hlive, e, t, hcalls⟩).elim

/-- Before any handle or parameter exists. -/
def initial (currentObject : Option ScObject) : HandleHeap H P := { currentObject := currentObject }

omit [DecidableEq H] [DecidableEq P] in
theorem exact_initial (currentObject : Option ScObject) :
    Exact (initial currentObject : HandleHeap H P) := Inverse.empty

/-- A run without fatal commands is not stopped, and the lists are exact at its end. -/
theorem runs_exact (currentObject : Option ScObject) {cs : List (HandleCmd H P)}
    (hcs : ∀ ds c, ds ++ [c] <+: cs → ¬c.Fatal (states HandleCmd.exec (initial currentObject) ds)) :
    Runs HandleCmd.exec (initial currentObject) cs (states HandleCmd.exec (initial currentObject) cs) ∧
      Exact (states HandleCmd.exec (initial currentObject) cs) := by
  induction cs using List.reverseRecOn with
  | nil => exact ⟨.nil _, exact_initial currentObject⟩
  | append_singleton cs c ih =>
    obtain ⟨hrun, hexact⟩ := ih fun ds d hds => hcs ds d (hds.trans (List.prefix_append cs [c]))
    obtain ⟨ho, ht⟩ := (hexact.exec c).2 (hcs cs c List.prefix_rfl)
    rw [states_snoc]
    exact ⟨hrun.snoc ho, ht⟩

/-- A run that is not stopped has no fatal commands. -/
theorem runs_not_fatal {currentObject : Option ScObject} {cs : List (HandleCmd H P)}
    (hrun : Runs HandleCmd.exec (initial currentObject) cs
      (states HandleCmd.exec (initial currentObject) cs)) :
    ∀ ds c, ds ++ [c] <+: cs → ¬c.Fatal (states HandleCmd.exec (initial currentObject) ds) := by
  induction cs using List.reverseRecOn with
  | nil =>
    intro ds c hds
    exact absurd (List.prefix_nil.1 hds) (List.append_ne_nil_of_right_ne_nil ds (List.cons_ne_nil _ _))
  | append_singleton cs c ih =>
    obtain ⟨u, hcs, ho, -⟩ := hrun.snoc_inv
    obtain rfl := hcs.eq_states
    have hearlier := ih hcs
    intro ds d hds
    rcases List.prefix_concat_iff.1 hds with heq | hds
    · obtain ⟨rfl, hd⟩ := List.append_inj' heq rfl
      obtain rfl := List.singleton_inj.1 hd
      intro hfatal
      rw [((runs_exact currentObject hearlier).2.exec d).1 hfatal] at ho
      cases ho
    · exact hearlier ds d hds

/-- What the lists promise in a state. -/
structure HandlesExact (s : HandleHeap H P) : Prop where
  /-- A handle is in the list of a parameter exactly when it points to it, -/
  mem_iff : ∀ p obj, s.params p = some obj → ∀ h,
    h ∈ obj.mParamHandles ↔ ∃ x, s.handles h = some x ∧ x.mParam = some p
  /-- and then exactly once. -/
  once : ∀ p obj, s.params p = some obj → ∀ h ∈ obj.mParamHandles, obj.mParamHandles.count h = 1
  /-- No handle points to a parameter that is gone. -/
  live : ∀ h x p, s.handles h = some x → x.mParam = some p → (s.params p).isSome
  /-- `invalidate_all_param_handles` ends after at most one round for each handle, with an empty
  list, and the handles to the parameter are then invalid. -/
  invalidateAll : ∀ p obj, s.params p = some obj → ∀ fuel, obj.mParamHandles.length ≤ fuel →
    ∃ t obj', invalidateAllParamHandles fuel p s = (.ok (), t) ∧ t.params p = some obj' ∧
      obj'.mParamHandles = [] ∧ ∀ h x, s.handles h = some x → x.mParam = some p →
        ∃ y, t.handles h = some y ∧ y.isValid = false
  /-- The destructor returns whatever handles the destroy callbacks use: its assertion does not fail.
  The handles that refer to the parameter after the callbacks are invalid, and none refers to it. -/
  destruct : ∀ p, (s.params p).isSome → ∀ destroyCallbacks t,
    destroyCallbacks.forM (invoke p) s = (.ok (), t) → ∃ u,
      destructParam p destroyCallbacks s = (.ok (), u) ∧ u.params p = none ∧
      (∀ h x, t.handles h = some x → x.mParam = some p →
        ∃ y, u.handles h = some y ∧ y.isValid = false) ∧
      ∀ h x, u.handles h = some x → x.mParam ≠ some p

theorem Exact.handlesExact {s : HandleHeap H P} (hs : Exact s) : HandlesExact s where
  mem_iff p obj hobj h := by
    have hmem := hs.mem_iff h p
    simpa [back, hobj, target, Option.bind_eq_some_iff] using hmem
  once p obj hobj h hmem := by
    have hcount := hs.count h p
    have htarget : target s h = some p := (hs.mem_iff h p).1 (by simpa [back, hobj] using hmem)
    simpa [back, hobj, htarget] using hcount
  live h x p hx hp := hs.isSome_params hx hp
  invalidateAll p obj hobj fuel hfuel := by
    have hlen : (back s p).length ≤ fuel := by simpa [back, hobj] using hfuel
    obtain ⟨t, hrun, ht, hinv, hempty⟩ := hs.invalidateAllParamHandles p hlen
    obtain ⟨obj', hobj'⟩ := Option.isSome_iff_exists.1 ((ht.params p).trans (by simp [hobj]))
    refine ⟨t, obj', hrun, hobj', by simpa [back, hobj'] using hempty, fun h x hx hp => ?_⟩
    exact hinv.isValid ht.exact hempty hx hp
  destruct p hp destroyCallbacks t hcalls := by
    obtain ⟨u, -, hu, -, hempty, hinv, hrun⟩ := hs.destructParam hp hcalls
    refine ⟨_, hrun, by simp [HandleHeap.setParam], fun h x hx hxp => ?_, fun h x hx => ?_⟩
    · exact hinv.isValid hu hempty hx hxp
    · exact hu.mParam_ne hempty hx

end HandleHeap

open HandleHeap in
/-- **Handle lists.**  A run of client code is never stopped, with an exact registration of handles at
its end and destructors that invalidate the handles to their parameter, if and only if no constructor
in it is left by an exception of a create callback while a handle to the new parameter is kept, and no
destroy callback throws. -/
theorem param_handles_exact {H P : Type} [DecidableEq H] [DecidableEq P]
    (currentObject : Option ScObject) (cs : List (HandleCmd H P)) :
    (Runs HandleCmd.exec (initial currentObject) cs
        (states HandleCmd.exec (initial currentObject) cs) ∧
      HandlesExact (states HandleCmd.exec (initial currentObject) cs)) ↔
    ∀ ds c, ds ++ [c] <+: cs → ¬c.Fatal (states HandleCmd.exec (initial currentObject) ds) := by
  constructor
  · exact fun h => runs_not_fatal h.1
  · intro hcs
    obtain ⟨hrun, hexact⟩ := runs_exact currentObject hcs
    exact ⟨hrun, hexact.handlesExact⟩

open HandleHeap in
/-- A create callback keeps a copy of its argument, and a later one throws: the assertion on the empty
list fails in `~cci_param_untyped`. -/
theorem handle_kept_by_callback :
    ¬∀ cs : List (HandleCmd ℕ Unit), Runs HandleCmd.exec (initial none) cs
      (states HandleCmd.exec (initial none) cs) := by
  intro h
  obtain ⟨u, hnil, ho, -⟩ := (h ([] ++ [.constructParam () 0 .unknown none
    [⟨0, [.copyConstruct 1 0], none⟩, ⟨0, [], some (setParamFailed "")⟩]])).snoc_inv
  cases hnil
  exact Bool.false_ne_true ho

end Cci
