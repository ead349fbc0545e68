import Cci.Cfg.CallbackHolders
import Cci.Cfg.Registrations

/-!
# The callback that is unregistered

`unregister_<kind>_callback` compares the objects that handles lead to, through adapters.  After any
history this is a comparison of the callbacks that were once constructed.

* `Accords` — the pointers of the variables and entries lead to what these denote;
* `UnregistersFirst` — what unregistration does;
* `KeepsCallback`, `ClonesApart` — what copies of a handle denote, and copies of a callback;
* `unregister_exact` — after any history it does that, for handles however they were obtained.
-/

namespace Cci

open RefCount

variable {T : Type}

/-- Variables and entries hold live objects, and lead to what the client says. -/
structure Accords (s : CallbackSystem) (t : CallbackClient T) : Prop where
  holders : ∀ x ∈ s.holders, Sees s.memory (s.mCb x) (t.denotes x)
  entries : ∀ k, List.Forall₂
    (fun e c => Sees s.memory e.callback c.callback ∧ e.originator = c.originator)
    (s.vec k) (t.param.vec k)

/-- Unregistration of the handle `g` by `orig`. -/
structure UnregistersFirst (s : CallbackSystem) (t : CallbackClient T) (k : CallbackKind) (g : ℕ)
    (orig : CciOriginator) : Prop where
  /-- It succeeds if an entry has the callback of the handle and an equal originator. -/
  returns : (s.unregisterCallback k (s.mCb (.handle g)) orig).1 = true ↔
    ∃ e ∈ t.param.vec k,
      e.callback.eq (t.denotes (.handle g)) = true ∧ (e.originator == orig) = true
  /-- The first such entry goes, and no other of any list. -/
  erases : (s.unregisterCallback k (s.mCb (.handle g)) orig).2.vec =
    Function.update s.vec k ((s.vec k).eraseIdx ((t.param.vec k).findIdx fun e =>
      e.callback.eq (t.denotes (.handle g)) && e.originator == orig))
  keeps : (s.unregisterCallback k (s.mCb (.handle g)) orig).2.holders = s.holders

/-- The handle that a registration returns denotes what was registered; so do its copies, the handles
it is assigned to, and those that recover a type, unless they are invalid. -/
structure KeepsCallback (t : CallbackClient T) : Prop where
  returned : ∀ r k g orig,
    (t.exec (.register r k g orig)).denotes (.handle r) = t.denotes (.handle g)
  copied : ∀ r x, (t.exec (.copyHandle r x)).denotes (.handle r) = t.denotes x
  assigned : ∀ c r g,
    ((assignHandle c r g).foldl CallbackClient.exec t).denotes (.handle r) = t.denotes (.handle g)
  recovered : ∀ r g sig a, (t.exec (.typedHandle r g sig a)).denotes (.handle r) = none ∨
    ((t.exec (.typedHandle r g sig a)).denotes (.handle r)).eq (t.denotes (.handle g)) = true

/-- The clone of a callback is none of those that are registered or held. -/
structure ClonesApart (s : CallbackSystem) (t : CallbackClient T) : Prop where
  registered : ∀ v w a b, s.Allowed (.copyCallback v w a b) → s.mCb (.callback w) ≠ none →
    ∀ k, ∀ e ∈ t.param.vec k,
      e.callback.eq ((t.exec (.copyCallback v w a b)).denotes (.callback v)) = false
  held : ∀ v w a b, s.Allowed (.copyCallback v w a b) → s.mCb (.callback w) ≠ none →
    ∀ x ∈ s.holders,
      (t.denotes x).eq ((t.exec (.copyCallback v w a b)).denotes (.callback v)) = false

theorem Related.accords {s : CallbackSystem} {t : CallbackClient T} {E : EntryPairs}
    {L : Multiset (Option ℕ × CallbackHandle)} (h : Related s t E L) : Accords s t := by
  refine ⟨fun x hx => h.sees hx, fun k => ?_⟩
  rw [h.vec, h.param, List.forall₂_map_left_iff, List.forall₂_map_right_iff, List.forall₂_same]
  exact fun y hy => ⟨h.sees_entry hy, rfl⟩

theorem Related.unregistersFirst {s : CallbackSystem} {t : CallbackClient T} {E : EntryPairs}
    {L : Multiset (Option ℕ × CallbackHandle)} (h : Related s t E L) {g : ℕ}
    (hg : .handle g ∈ s.holders) (k : CallbackKind) (orig : CciOriginator) :
    UnregistersFirst s t k g orig := by
  have hrun := h.unregisterCallback_eq hg k orig
  have hindex : (s.vec k).eraseIdx ((t.param.vec k).findIdx
        (CciParamUntyped.matchesEntry (t.denotes (.handle g)) orig)) =
      ((E k).eraseP fun y => CciParamUntyped.matchesEntry (t.denotes (.handle g)) orig y.2).map
        fun x => CallbackEntry.mk x.1 x.2.originator := by
    rw [h.vec, h.param, List.findIdx_map, List.eraseIdx_map, EraseLoop.eraseIdx_findIdx]
    rfl
  have hany : (∃ e ∈ t.param.vec k, e.callback.eq (t.denotes (.handle g)) = true ∧
      (e.originator == orig) = true) ↔
        ∃ y ∈ E k, CciParamUntyped.matchesEntry (t.denotes (.handle g)) orig y.2 = true := by
    rw [h.param]
    simp only [List.mem_map, exists_exists_and_eq_and, CciParamUntyped.matchesEntry,
      Bool.and_eq_true]
  cases hfind : (E k).find? fun y =>
      CciParamUntyped.matchesEntry (t.denotes (.handle g)) orig y.2 with
  | some y =>
    rw [hfind] at hrun
    have hhit := List.find?_some hfind
    refine ⟨?_, ?_, ?_⟩
    · rw [hrun, hany]
      exact iff_of_true rfl ⟨y, List.mem_of_find?_eq_some hfind, hhit⟩
    · rw [hrun]
      exact congrArg (Function.update s.vec k) hindex.symm
    · rw [hrun]
  | none =>
    rw [hfind] at hrun
    have hnone := List.find?_eq_none.1 hfind
    refine ⟨?_, ?_, ?_⟩
    · rw [hrun, hany]
      refine iff_of_false Bool.false_ne_true ?_
      rintro ⟨y, hy, hhit⟩
      exact hnone y hy hhit
    · rw [hrun]
      rw [List.eraseP_of_forall_not hnone, ← h.vec] at hindex
      exact (Function.update_eq_self k s.vec).symm.trans
        (congrArg (Function.update s.vec k) hindex.symm)
    · rw [hrun]

/-- What is denoted was constructed before, so a clone made now is another callback. -/
theorem Related.clone_other {s : CallbackSystem} {t : CallbackClient T} {E : EntryPairs}
    {L : Multiset (Option ℕ × CallbackHandle)} (h : Related s t E L) {v w a b : ℕ}
    (hc : s.Allowed (.copyCallback v w a b)) (hw : s.mCb (.callback w) ≠ none) {p : Option ℕ}
    {u : CallbackHandle} (hp : Sees s.memory p u) :
    u.eq ((t.exec (.copyCallback v w a b)).denotes (.callback v)) = false := by
  have hsees := h.sees hc.2.1
  obtain ⟨c, hc⟩ := Option.ne_none_iff_exists'.1 hw
  rw [hc] at hsees
  obtain ⟨held, hd⟩ := hsees.exists_held
  have hclone : (t.exec (.copyCallback v w a b)).denotes (.callback v) =
      some (held.clone s.nextId) := by
    rw [CallbackClient.exec, hd, ← h.nextId]
    exact Function.update_self _ _ _
  have haddr : (CallbackHandle.get (some (held.clone s.nextId))).map CallbackImpl.addr =
      some s.nextId := by
    cases held <;> rfl
  rw [hclone, CallbackHandle.eq, haddr, beq_eq_false_iff_ne]
  cases u with
  | none => exact (Option.some_ne_none _).symm
  | some held' =>
    have hlt := h.sound.addr_lt hp
    exact fun heq => absurd (Option.some.inj heq) (Nat.ne_of_lt hlt)

/-- A valid recovered handle denotes the callback of its source. -/
theorem cciCallbackTypedHandle_eq (sig : Signature) (v : CallbackHandle) :
    cciCallbackTypedHandle sig v = none ∨ (cciCallbackTypedHandle sig v).eq v = true := by
  cases hh : cciCallbackTypedHandle sig v with
  | none => exact .inl rfl
  | some held =>
    obtain ⟨-, hget, -⟩ := cciCallbackTypedHandle_eq_some hh
    rw [CallbackHandle.eq, hget]
    exact .inr (beq_self_eq_true _)

theorem keepsCallback (t : CallbackClient T) : KeepsCallback t where
  returned _ _ _ _ := Function.update_self _ _ _
  copied _ _ := Function.update_self _ _ _
  assigned c r g := by
    have hcopy : (t.exec (.copyHandle c (.handle g))).denotes (.handle c) =
        t.denotes (.handle g) := Function.update_self _ _ _
    have hswap : ((assignHandle c r g).foldl CallbackClient.exec t).denotes (.handle r) =
        (t.exec (.copyHandle c (.handle g))).denotes (.handle c) := Function.update_self _ _ _
    exact hswap.trans hcopy
  recovered r g sig a := by
    have hrecovered : (t.exec (.typedHandle r g sig a)).denotes (.handle r) =
        cciCallbackTypedHandle sig (t.denotes (.handle g)) := Function.update_self _ _ _
    rw [hrecovered]
    exact cciCallbackTypedHandle_eq sig _

/-- **Unregistration finds the callback that was registered.**  After any history it erases the first
entry whose callback is that of the handle and whose originator is equal, and returns true if there
is one; what handles and entries are left lead where they did. -/
theorem unregister_exact {q : CciParam T} (hq : ∀ k, q.vec k = []) {s : CallbackSystem}
    {t : CallbackClient T} (h : Reached q s t) :
    Accords s t ∧
      (∀ g, .handle g ∈ s.holders → ∀ k orig, UnregistersFirst s t k g orig ∧
        Accords (s.unregisterCallback k (s.mCb (.handle g)) orig).2
          (t.exec (.unregister k g orig))) ∧
      KeepsCallback t ∧ ClonesApart s t := by
  obtain ⟨E, L, hrel⟩ := h.related hq
  refine ⟨hrel.accords, fun g hg k orig => ⟨hrel.unregistersFirst hg k orig, ?_⟩,
    keepsCallback t, ⟨fun v w a b hc hw k e he => ?_, fun v w a b hc hw x hx => ?_⟩⟩
  · exact (hrel.unregister (g := g) hg).accords
  · rw [hrel.param] at he
    obtain ⟨y, hy, rfl⟩ := List.mem_map.1 he
    exact hrel.clone_other hc hw (hrel.sees_entry hy)
  · exact hrel.clone_other hc hw (hrel.sees hx)

/-- The signature of an untyped pre-write callback, and that of a typed one. -/
def untypedPreWrite : Signature := ⟨.writeEvent none, .bool⟩
def typedPreWrite : Signature := CallbackKind.preWrite.signature 0

/-- An untyped callback is registered, its handle is recovered for a type, and nothing else is kept. -/
def adaptedRun : List CallbackCommand :=
  [.construct 0 untypedPreWrite 1, .copyHandle 0 (.callback 0), .register 1 .preWrite 0 .unknown,
    .destroy (.callback 0), .destroy (.handle 0), .typedHandle 2 1 typedPreWrite 2,
    .destroy (.handle 1)]

theorem adaptedRun_reached : Reached freshParam (adaptedRun.foldl CallbackSystem.exec {})
    (adaptedRun.foldl CallbackClient.exec { param := freshParam }) := by
  simp only [adaptedRun, List.foldl_cons, List.foldl_nil]
  refine .step (.step (.step (.step (.step (.step (.step .start ?_) ?_) ?_) ?_) ?_) ?_) ?_
  · exact ⟨by decide, by decide⟩
  · exact ⟨by decide, by decide⟩
  · exact ⟨by decide, by decide⟩
  · show _ ∈ _
    decide
  · show _ ∈ _
    decide
  · exact ⟨by decide, by decide, by decide⟩
  · show _ ∈ _
    decide

/-- The recovered handle unregisters it. -/
theorem unregister_exact_adapted :
    ((adaptedRun.foldl CallbackSystem.exec {}).unregisterCallback .preWrite (some 2) .unknown).1 =
      true :=
  ((unregister_exact (fun _ => rfl) adaptedRun_reached).2.1 2 (by decide) .preWrite
    .unknown).1.returns.2 ⟨⟨some (.impl ⟨0, untypedPreWrite⟩), .unknown⟩, by decide, by decide, by decide⟩

end Cci
