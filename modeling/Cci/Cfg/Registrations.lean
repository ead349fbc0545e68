import Cci.Cfg.Client
import Cci.Lib.EraseLoop

/-!
# Registrations of a parameter

`register_<kind>_callback` and `unregister_<kind>_callback` fill and empty the four callback lists;
`has_callbacks` is to say whether a registration is left.

* `RegistrationCall` — a call, and what it does to the parameter object;
* `outstanding` — how often a callback is registered and not unregistered since, by the calls alone;
* `countP_run` — the lists hold just these registrations;
* `has_callbacks_exact` — when `has_callbacks` is right.
-/

namespace Cci

variable {T : Type}

/-! ### Histories -/

/-- A call of `register_<kind>_callback(cb, orig)` or `unregister_<kind>_callback(cb, orig)`. -/
inductive RegistrationCall where
  | register (k : CallbackKind) (cb : CallbackHandle) (orig : CciOriginator)
  | unregister (k : CallbackKind) (cb : CallbackHandle) (orig : CciOriginator)

/-- The object after the call. -/
def RegistrationCall.run (q : CciParam T) : RegistrationCall → CciParam T
  | .register k cb orig => (CciParamUntyped.registerCallback k cb orig q).2
  | .unregister k cb orig => (CciParamUntyped.unregisterCallback k cb orig q).2

/-- A callback registered in one of the lists by an originator. -/
structure Registration where
  kind : CallbackKind
  callback : CallbackHandle
  originator : CciOriginator

namespace Registration

/-- A call about this list, callback and originator is about the registration. -/
def concerns (r : Registration) (k : CallbackKind) (cb : CallbackHandle) (orig : CciOriginator) :
    Bool :=
  k = r.kind && r.callback.eq cb && r.originator == orig

/-- The registrations left of `n` after the call. -/
def count (r : Registration) (n : ℕ) : RegistrationCall → ℕ
  | .register k cb orig => if r.concerns k cb orig then n + 1 else n
  | .unregister k cb orig => if r.concerns k cb orig then n - 1 else n

end Registration

/-- How often the callback was registered and not unregistered since. -/
def outstanding (r : Registration) (hist : List RegistrationCall) : ℕ := hist.foldl r.count 0

/-! ### Equal callbacks and originators -/

namespace CciParamUntyped

theorem matchesEntry_iff {cb : CallbackHandle} {orig : CciOriginator} {e : CallbackObj} :
    matchesEntry cb orig e = true ↔
      e.callback.get.map CallbackImpl.addr = cb.get.map CallbackImpl.addr ∧
        (e.originator == orig) = true := by
  rw [matchesEntry, CallbackHandle.eq, Bool.and_eq_true, beq_iff_eq]

theorem matchesEntry_self (e : CallbackObj) :
    matchesEntry e.callback e.originator e = true := matchesEntry_iff.2 ⟨rfl, BEq.rfl⟩

end CciParamUntyped

namespace Registration

open CciParamUntyped

/-- The entries of the registration. -/
def holds (r : Registration) : CallbackObj → Bool := matchesEntry r.callback r.originator

theorem concerns_iff {r : Registration} {k : CallbackKind} {cb : CallbackHandle}
    {orig : CciOriginator} :
    r.concerns k cb orig = true ↔ k = r.kind ∧
      r.callback.get.map CallbackImpl.addr = cb.get.map CallbackImpl.addr ∧
        (r.originator == orig) = true := by
  rw [concerns, CallbackHandle.eq, Bool.and_eq_true, Bool.and_eq_true, decide_eq_true_eq,
    beq_iff_eq, and_assoc]

/-- Of a call about the registration the entries are the same. -/
theorem matchesEntry_of_concerns {r : Registration} {k : CallbackKind} {cb : CallbackHandle}
    {orig : CciOriginator} (h : r.concerns k cb orig = true) : matchesEntry cb orig = r.holds := by
  obtain ⟨-, haddr, horig⟩ := concerns_iff.1 h
  funext e
  rw [holds, Bool.eq_iff_iff, matchesEntry_iff, matchesEntry_iff, haddr]
  exact and_congr_right fun _ =>
    ⟨fun h => BEq.trans h (BEq.symm horig), fun h => BEq.trans h horig⟩

/-- Of any other call on its list they are apart. -/
theorem disjoint_of_not_concerns {r : Registration} {cb : CallbackHandle} {orig : CciOriginator}
    (h : r.concerns r.kind cb orig = false) {e : CallbackObj} (he : matchesEntry cb orig e = true) :
    r.holds e = false := by
  by_contra hne
  rw [Bool.not_eq_false] at hne
  obtain ⟨haddr, horig⟩ := matchesEntry_iff.1 he
  obtain ⟨haddr', horig'⟩ := matchesEntry_iff.1 hne
  have hconcerns : r.concerns r.kind cb orig = true :=
    concerns_iff.2 ⟨rfl, haddr'.symm.trans haddr, BEq.trans (BEq.symm horig') horig⟩
  rw [hconcerns] at h
  cases h

/-! ### One call -/

/-- A call changes the number of entries of a registration as it is counted. -/
theorem countP_run (r : Registration) (q : CciParam T) (c : RegistrationCall) :
    ((c.run q).vec r.kind).countP r.holds = r.count ((q.vec r.kind).countP r.holds) c := by
  cases c with
  | register k cb orig =>
    rw [RegistrationCall.run, CciParamUntyped.vec_registerCallback, count]
    by_cases hk : r.kind = k
    · subst hk
      rw [if_pos rfl, List.countP_append, List.countP_singleton]
      have hself := matchesEntry_self ⟨cb, orig⟩
      by_cases hc : r.concerns r.kind cb orig = true
      · rw [if_pos hc, if_pos ((matchesEntry_of_concerns hc) ▸ hself)]
      · rw [if_neg hc, disjoint_of_not_concerns (Bool.eq_false_of_not_eq_true hc) hself]
        rfl
    · rw [if_neg hk, if_neg fun hc => hk (concerns_iff.1 hc).1.symm]
  | unregister k cb orig =>
    rw [RegistrationCall.run, CciParamUntyped.vec_unregisterCallback, count]
    by_cases hk : r.kind = k
    · subst hk
      rw [if_pos rfl]
      by_cases hc : r.concerns r.kind cb orig = true
      · rw [if_pos hc, matchesEntry_of_concerns hc]
        by_cases hmem : ∃ e ∈ q.vec r.kind, r.holds e = true
        · obtain ⟨e, he, hhit⟩ := hmem
          have hcount := EraseLoop.countP_eraseP he hhit
          omega
        · have hnone : (q.vec r.kind).countP r.holds = 0 :=
            List.countP_eq_zero.2 fun e he hhit => hmem ⟨e, he, hhit⟩
          rw [List.eraseP_of_forall_not fun e he hhit => hmem ⟨e, he, hhit⟩, hnone]
      · rw [if_neg hc]
        exact EraseLoop.countP_eraseP_of_disjoint fun e _ he =>
          disjoint_of_not_concerns (Bool.eq_false_of_not_eq_true hc) he
    · rw [if_neg hk, if_neg fun hc => hk (concerns_iff.1 hc).1.symm]

/-- After a history the lists of a parameter that had no callbacks hold what is outstanding. -/
theorem countP_history {q : CciParam T} (hq : ∀ k, q.vec k = []) (r : Registration)
    (hist : List RegistrationCall) :
    ((hist.foldl RegistrationCall.run q).vec r.kind).countP r.holds = outstanding r hist := by
  have hrun : ∀ (hist : List RegistrationCall) (q : CciParam T),
      ((hist.foldl RegistrationCall.run q).vec r.kind).countP r.holds =
        hist.foldl r.count ((q.vec r.kind).countP r.holds) := by
    intro hist
    induction hist with
    | nil => exact fun _ => rfl
    | cons c hist ih =>
      intro q
      rw [List.foldl_cons, List.foldl_cons, ih, r.countP_run]
  rw [hrun, hq]
  rfl

/-- A list is empty when nothing registered in it is outstanding. -/
theorem vec_eq_nil_iff {q : CciParam T} (hq : ∀ k, q.vec k = []) (k : CallbackKind)
    (hist : List RegistrationCall) :
    (hist.foldl RegistrationCall.run q).vec k = [] ↔
      ∀ r : Registration, r.kind = k → outstanding r hist = 0 := by
  constructor
  · rintro hnil r rfl
    rw [← countP_history hq, hnil]
    rfl
  · intro hnone
    rw [List.eq_nil_iff_forall_not_mem]
    intro e he
    have hzero := hnone ⟨k, e.callback, e.originator⟩ rfl
    rw [← countP_history hq, List.countP_eq_zero] at hzero
    exact hzero e he (matchesEntry_self e)

end Registration

/-! ### `has_callbacks` -/

open Registration

/-- Something registered is outstanding. -/
def AnyOutstanding (hist : List RegistrationCall) (kinds : CallbackKind → Prop) : Prop :=
  ∃ r : Registration, kinds r.kind ∧ 0 < outstanding r hist

theorem hasCallbacks_iff {q : CciParam T} (hq : ∀ k, q.vec k = []) (hist : List RegistrationCall) :
    CciParamUntyped.hasCallbacks (hist.foldl RegistrationCall.run q) = true ↔
      AnyOutstanding hist fun k => k = .preWrite ∨ k = .postWrite := by
  have hlist : ∀ k, (hist.foldl RegistrationCall.run q).vec k ≠ [] ↔
      ∃ r : Registration, r.kind = k ∧ 0 < outstanding r hist := by
    intro k
    rw [Ne, vec_eq_nil_iff hq]
    push Not
    exact exists_congr fun r => and_congr_right fun _ => Nat.pos_iff_ne_zero.symm
  have hpost := hlist .postWrite
  have hpre := hlist .preWrite
  rw [CciParamUntyped.hasCallbacks, Bool.or_eq_true, Bool.not_eq_true', Bool.not_eq_true',
    List.isEmpty_eq_false_iff, List.isEmpty_eq_false_iff, hpost, hpre, AnyOutstanding]
  constructor
  · rintro (⟨r, hr, hout⟩ | ⟨r, hr, hout⟩)
    · exact ⟨r, .inr hr, hout⟩
    · exact ⟨r, .inl hr, hout⟩
  · rintro ⟨r, hr | hr, hout⟩
    · exact .inr ⟨r, hr, hout⟩
    · exact .inl ⟨r, hr, hout⟩

/-- **`has_callbacks`.**  Over any history of calls it tells whether a registration is outstanding
exactly if one to a write list is, or none to a read list. -/
theorem has_callbacks_exact {q : CciParam T} (hq : q.Constructed) (hist : List RegistrationCall) :
    (CciParamUntyped.hasCallbacks (hist.foldl RegistrationCall.run q) = true ↔
        AnyOutstanding hist fun _ => True) ↔
      (AnyOutstanding hist fun k => k = .preWrite ∨ k = .postWrite) ∨
        ¬AnyOutstanding hist fun k => k = .preRead ∨ k = .postRead := by
  have hvec : ∀ k, q.vec k = [] := by
    intro k
    rw [CciParam.vec, hq.2.1]
  rw [hasCallbacks_iff hvec]
  constructor
  · intro h
    by_contra hno
    push Not at hno
    obtain ⟨hwrite, r, -, hout⟩ := hno
    exact hwrite (h.2 ⟨r, trivial, hout⟩)
  · rintro (hwrite | hread)
    · obtain ⟨r, hr, hout⟩ := hwrite
      exact iff_of_true ⟨r, hr, hout⟩ ⟨r, trivial, hout⟩
    · constructor
      · rintro ⟨r, -, hout⟩
        exact ⟨r, trivial, hout⟩
      · rintro ⟨r, -, hout⟩
        refine ⟨r, ?_, hout⟩
        cases hk : r.kind with
        | preWrite => exact .inl rfl
        | postWrite => exact .inr rfl
        | preRead => exact absurd ⟨r, .inl hk, hout⟩ hread
        | postRead => exact absurd ⟨r, .inr hk, hout⟩ hread

/-- A parameter as it is constructed. -/
def freshParam : CciParam Unit where
  mName := "top.p"
  mValue := ()
  mDefaultValue := ()
  mValueOrigin := .unknown
  mOriginator := .unknown
  this := 0

theorem freshParam_constructed : freshParam.Constructed := ⟨rfl, fun _ => rfl, rfl, rfl⟩

/-- A callback of the signature of its list. -/
def signedCallback (k : CallbackKind) : CallbackHandle := some (.impl ⟨1, k.signature 0⟩)

/-- Two registrations, of which one is undone. -/
def writtenHistory : List RegistrationCall :=
  [.register .preRead (signedCallback .preRead) .unknown,
    .register .preWrite (signedCallback .preWrite) .unknown,
    .unregister .preRead (signedCallback .preRead) .unknown]

theorem has_callbacks_exact_written :
    CciParamUntyped.hasCallbacks (writtenHistory.foldl RegistrationCall.run freshParam) = true ↔
      AnyOutstanding writtenHistory fun _ => True :=
  (has_callbacks_exact freshParam_constructed writtenHistory).2
    (.inl ⟨⟨.preWrite, signedCallback .preWrite, .unknown⟩, .inl rfl, by decide⟩)

/-- A callback registered for reads only is overlooked. -/
theorem read_callbacks_overlooked :
    ¬∀ (q : CciParam Unit) (hist : List RegistrationCall), q.Constructed →
      (CciParamUntyped.hasCallbacks (hist.foldl RegistrationCall.run q) = true ↔
        AnyOutstanding hist fun _ => True) := by
  intro h
  have hread := h freshParam [.register .preRead (signedCallback .preRead) .unknown]
    freshParam_constructed
  have htrue := hread.2 ⟨⟨.preRead, signedCallback .preRead, .unknown⟩, trivial, by decide⟩
  cases htrue

end Cci
