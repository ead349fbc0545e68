import Cci.Core.ValueStorage

/-!
# Objects have values of their own

The pointers that `cci_value` objects pass around never make two objects share a value: what an
operation does to the storage is what it would do if each object held its value itself.

* `Repr.assignValue_run`, `Repr.moveContents_run` and the like — copies and moves between objects;
* `Op.agrees` — each operation does what its meaning says;
* `value_semantics` — so does every sequence of operations;
* `storage_reused` — the storage a sequence takes is what it needs at its peak.
-/

namespace Cci

open Effect SlotPool

namespace ValueStorage

variable {X : Type}

/-! ### Assignments -/

section

variable {m : Storage X} {a : Env X} {owned : Finset ℕ} {n : ℕ} [DecidableEq X]

theorem CciValue_eq_null {v : CciValue} (h : v.isNull = true) : v = .null := by
  cases v with
  | null => rfl
  | _ => cases h

/-- A reference of another class than `cci_value` does not refer to a null value. -/
theorem RefKind.not_null {k : RefKind} (hk : k ≠ .value) {v : CciValue} (h : k.holds v = true) :
    v.isNull = false := by
  cases v with
  | null => cases k with
    | value => exact absurd rfl hk
    | _ => cases h
  | _ => rfl

theorem WrapperKind.ref_ne {k : WrapperKind} (hk : k ≠ .value) : k.ref ≠ .value := by
  cases k with
  | value => exact absurd rfl hk
  | _ => exact RefKind.noConfusion

/-- A copy of a value that is not null, between pointers with storage. -/
theorem Repr.refAssign_run (h : Repr m a owned n) {x y : X} {k k' : WrapperKind} {u v : CciValue}
    (hx : a x = some (k, some u)) (hy : a y = some (k', some v)) {p q : Option ℕ}
    (ox : m.objects x = some ⟨k, p, p⟩) (oy : m.objects y = some ⟨k', q, q⟩)
    (hv : v.isNull = false) :
    ∃ m₁, refAssign p q m = (.ok (), m₁) ∧
      Repr m₁ (Function.update a x (some (k, some v))) owned n := by
  have hnull : isNullAt q m = (.ok false, m) := (h.isNullAt_run hy oy).trans (by
    rw [Option.getD_some, hv])
  obtain ⟨s, ox', -, -⟩ := h.slot hx
  cases ox'.symm.trans ox
  rw [refAssign, Eff.bind_run_ok hnull]
  by_cases hpq : some s = q
  · -- The two objects share their slot, so they are one object.
    have hxy : x = y := h.unique x y s ⟨_, ox, rfl⟩ ⟨_, oy, hpq.symm⟩
    subst hxy
    cases hx.symm.trans hy
    refine ⟨m, by simp [hpq], ?_⟩
    rw [← hx, Function.update_eq_self]
    exact h
  · obtain ⟨q', oy', hderef⟩ := h.deref_run hy
    cases oy'.symm.trans oy
    obtain ⟨m₁, hassign, -, hrepr⟩ := h.assignAt_run hx ox v
    refine ⟨m₁, ?_, hrepr⟩
    simp only [Bool.false_eq_true, if_false, hpq, reduceCtorEq]
    rw [Eff.bind_run_ok hderef]
    exact hassign

/-- `cci_value::operator=(const_reference)`. -/
theorem Repr.assignValue_run (h : Repr m a owned n) {x y : X} {k : WrapperKind}
    {c d : Option CciValue} (hx : a x = some (.value, c)) (hy : a y = some (k, d)) {q : Option ℕ}
    (oy : m.objects y = some ⟨k, q, q⟩) :
    ∃ m₁ owned₁, assignFrom .value x q m = (.ok (), m₁) ∧
      Repr m₁ (Function.update a x (some (.value, some (d.getD .null)))) owned₁
        (max n owned₁.card) := by
  have hnull := h.isNullAt_run hy oy
  obtain ⟨m₁, owned₁, hinit, hkept, hrepr⟩ := h.init_run hx rfl
  obtain ⟨s, ox, -, -⟩ := hrepr.slot (Function.update_self x (some (WrapperKind.value, _)) a)
  rw [assignFrom, Eff.bind_run_ok hnull, Eff.bind_run_ok hinit, Eff.bind_run_ok (getObject_of ox)]
  cases hv : (d.getD .null).isNull with
  | true =>
    obtain ⟨m₂, hassign, -, hrepr₂⟩ :=
      hrepr.assignAt_run (Function.update_self _ _ _) ox CciValue.null
    rw [Function.update_idem] at hrepr₂
    rw [CciValue_eq_null hv]
    exact ⟨m₂, owned₁, hassign, hrepr₂⟩
  | false =>
    cases d with
    | none => cases hv
    | some v =>
      rw [Option.getD_some] at hv ⊢
      by_cases hxy : y = x
      · subst hxy
        cases hx.symm.trans hy
        obtain ⟨t, oy', -, -⟩ := h.slot hy
        cases oy'.symm.trans oy
        -- Already given storage, so `init()` did nothing.
        have hsame : m₁ = m := by
          have hdone : init y m = (.ok (), m) := by
            rw [init, Eff.bind_run_ok (getObject_of oy), if_neg (by simp)]
            rfl
          exact congrArg Prod.snd (hinit.symm.trans hdone)
        subst hsame
        obtain ⟨m₂, hassign, hrepr₂⟩ := hrepr.refAssign_run (Function.update_self _ _ _)
          (Function.update_self _ _ _) ox oy hv
        rw [Function.update_idem] at hrepr₂
        exact ⟨m₂, owned₁, hassign, hrepr₂⟩
      · have hy₁ : Function.update a x (some (WrapperKind.value, some (c.getD CciValue.null))) y =
            some (k, some v) := (Function.update_of_ne hxy _ _).trans hy
        obtain ⟨m₂, hassign, hrepr₂⟩ := hrepr.refAssign_run (Function.update_self _ _ _) hy₁ ox
          ((hkept y hxy).trans oy) hv
        rw [Function.update_idem] at hrepr₂
        exact ⟨m₂, owned₁, hassign, hrepr₂⟩

/-- `operator=(const_reference)` of the other two classes. -/
theorem Repr.assignOther_run (h : Repr m a owned n) {x y : X} {k k' : WrapperKind}
    (hk : k ≠ .value) {c d : Option CciValue} (hx : a x = some (k, c)) (hy : a y = some (k', d))
    {p q : Option ℕ} (ox : m.objects x = some ⟨k, p, p⟩) (oy : m.objects y = some ⟨k', q, q⟩) :
    (c.any k.ref.holds && d.any k.ref.holds) = false ∧ assignFrom k x q m = (.abort, m) ∨
    (c.any k.ref.holds && d.any k.ref.holds) = true ∧ ∃ m₁, assignFrom k x q m = (.ok (), m₁) ∧
      Repr m₁ (Function.update a x (some (k, d))) owned n := by
  have hown := h.holdsAt_run hx ox k.ref
  have hother := h.holdsAt_run hy oy k.ref
  have hrun : assignFrom k x q m = (if c.any k.ref.holds && d.any k.ref.holds then refAssign p q
      else Eff.abort) m := by
    cases k with
    | value => exact absurd rfl hk
    | list =>
      rw [assignFrom, Eff.bind_run_ok (getObject_of ox), Eff.bind_run_ok hown,
        Eff.bind_run_ok hother]
      exact WrapperKind.noConfusion
    | map =>
      rw [assignFrom, Eff.bind_run_ok (getObject_of ox), Eff.bind_run_ok hown,
        Eff.bind_run_ok hother]
      exact WrapperKind.noConfusion
  cases hb : (c.any k.ref.holds && d.any k.ref.holds) with
  | false =>
    rw [hb] at hrun
    exact .inl ⟨rfl, hrun⟩
  | true =>
    rw [hb] at hrun
    obtain ⟨hc, hd⟩ := Bool.and_eq_true_iff.1 hb
    cases c with
    | none => cases hc
    | some u =>
      cases d with
      | none => cases hd
      | some v =>
        obtain ⟨m₁, hassign, hrepr⟩ :=
          h.refAssign_run hx hy ox oy (RefKind.not_null (WrapperKind.ref_ne hk) hd)
        exact .inr ⟨rfl, m₁, hrun.trans hassign, hrepr⟩

/-- Two objects that are not one: the value of one moves to the other. -/
theorem Repr.moveContents_run (h : Repr m a owned n) {x y : X} (hxy : x ≠ y) {k k' : WrapperKind}
    {u v : CciValue} (hx : a x = some (k, some u)) (hy : a y = some (k', some v)) {p q : Option ℕ}
    (ox : m.objects x = some ⟨k, p, p⟩) (oy : m.objects y = some ⟨k', q, q⟩) (r : RefKind) :
    ∃ m₁, moveContents r p q m = (.ok (), m₁) ∧
      Repr m₁ (Function.update (Function.update a x (some (k, some v))) y
        (some (k', some r.emptied))) owned n := by
  obtain ⟨q', oy', hderef⟩ := h.deref_run hy
  cases oy'.symm.trans oy
  obtain ⟨m₁, hassign, hobjects, hrepr⟩ := h.assignAt_run hx ox v
  have hy₁ : Function.update a x (some (k, some v)) y = some (k', some v) :=
    (Function.update_of_ne hxy.symm _ _).trans hy
  obtain ⟨m₂, hempty, -, hrepr₂⟩ := hrepr.assignAt_run hy₁ (hobjects ▸ oy) r.emptied
  refine ⟨m₂, ?_, hrepr₂⟩
  rw [moveContents, Eff.bind_run_ok hderef, Eff.bind_run_ok hassign]
  exact hempty

end

/-! ### Operations -/

/-- The class of an object decides whether it has storage from the start. -/
def Full (a : Env X) : Prop := ∀ x k c, a x = some (k, c) → k ≠ .value → ∃ v, c = some v

section

/-- The operation ends as its meaning does, and when it returns, the storage stands for the values
that the meaning says; it has grown to the slots in use, if these are more than there were. -/
def Agrees (n : ℕ) (r : Outcome Failure Unit × Storage X)
    (r' : Outcome Failure Unit × Env X) : Prop :=
  r.1 = r'.1 ∧ (r.1 = .ok () → ∃ owned, Repr r.2 r'.2 owned (max n owned.card))

variable {m : Storage X} {a : Env X} {owned : Finset ℕ} {n : ℕ}

theorem Agrees.throw {r : Outcome Failure Unit × Storage X} {r' : Outcome Failure Unit × Env X}
    {e : Failure} {t : Storage X} {b : Env X} (h : r = (.throw e, t)) (h' : r' = (.throw e, b)) :
    Agrees n r r' := by
  subst h h'
  exact ⟨rfl, fun hok => by cases hok⟩

theorem Agrees.abort {r : Outcome Failure Unit × Storage X} {r' : Outcome Failure Unit × Env X}
    {t : Storage X} {b : Env X} (h : r = (.abort, t)) (h' : r' = (.abort, b)) : Agrees n r r' := by
  subst h h'
  exact ⟨rfl, fun hok => by cases hok⟩

theorem Agrees.ok {r : Outcome Failure Unit × Storage X} {r' : Outcome Failure Unit × Env X}
    {t : Storage X} {b : Env X} (h : r = (.ok (), t)) (h' : r' = (.ok (), b))
    (hrepr : Repr t b owned (max n owned.card)) : Agrees n r r' := by
  subst h h'
  exact ⟨rfl, fun _ => ⟨owned, hrepr⟩⟩

/-- Without a new slot. -/
theorem Agrees.kept {r : Outcome Failure Unit × Storage X} {r' : Outcome Failure Unit × Env X}
    {t : Storage X} {b : Env X} (h : r = (.ok (), t)) (h' : r' = (.ok (), b))
    (hrepr : Repr t b owned n) : Agrees n r r' := by
  have hmax : Repr t b owned (max n owned.card) := by
    rw [Nat.max_eq_left hrepr.card_le]
    exact hrepr
  exact .ok h h' hmax

variable [DecidableEq X]

/-- A new object comes to be, in the storage and among the values, or neither. -/
theorem Repr.fresh_run (h : Repr m a owned n) (x : X) (k : WrapperKind) :
    (newObject k x m = (.throw .noObject, m) ∧ Env.fresh x a = (.throw .noObject, a)) ∨
    a x = none ∧ Env.fresh x a = (.ok (), a) ∧ ∃ m₁, newObject k x m = (.ok (), m₁) ∧
      m₁.objects = Function.update m.objects x (some ⟨k, none, none⟩) ∧
      Repr m₁ (Function.update a x (some (k, none))) owned n := by
  cases hx : a x with
  | none =>
    refine .inr ⟨rfl, by simp only [Env.fresh, hx], ?_⟩
    exact h.newObject_run hx k
  | some o =>
    obtain ⟨p, ho, -⟩ := h.object (k := o.1) (c := o.2) hx
    exact .inl ⟨by simp only [newObject, ho], by simp only [Env.fresh, hx]⟩

/-- A new object with storage. -/
theorem Repr.newWithStorage {x : X} {k : WrapperKind} {m₁ : Storage X}
    (h₁ : Repr m₁ (Function.update a x (some (k, none))) owned n)
    (hobjects : m₁.objects = Function.update m.objects x (some ⟨k, none, none⟩)) :
    ∃ m₂ s owned₂, doInit x m₁ = (.ok (), m₂) ∧
      m₂.objects = Function.update m.objects x (some ⟨k, some s, some s⟩) ∧
      Repr m₂ (Function.update a x (some (k, some k.ref.emptied))) owned₂ (max n owned₂.card) := by
  obtain ⟨m₂, s, hrun, hnew, hobjects₂, hrepr⟩ := h₁.doInit_run (Function.update_self _ _ _)
  rw [Function.update_idem] at hrepr
  rw [hobjects, Function.update_idem] at hobjects₂
  refine ⟨m₂, s, insert s owned, hrun, hobjects₂, ?_⟩
  rw [Finset.card_insert_of_notMem hnew]
  exact hrepr

/-- `swap(reference)` sees to it that a `cci_value` has storage. -/
theorem Repr.initForSwap_run (h : Repr m a owned n) (hfull : Full a) {x : X} {k : WrapperKind}
    {c : Option CciValue} (hx : a x = some (k, c)) :
    ∃ m₁ owned₁, initForSwap k x m = (.ok (), m₁) ∧
      ((∃ v, c = some v) → m₁ = m) ∧ (∀ y, y ≠ x → m₁.objects y = m.objects y) ∧
      Repr m₁ (Function.update a x (some (k, some (c.getD .null)))) owned₁ (max n owned₁.card) := by
  have hkept : ∀ v, c = some v → Repr m (Function.update a x (some (k, some (c.getD .null)))) owned
      (max n owned.card) := by
    rintro v rfl
    rw [Option.getD_some, ← hx, Function.update_eq_self, Nat.max_eq_left h.card_le]
    exact h
  by_cases hk : k = .value
  · subst hk
    obtain ⟨m₁, owned₁, hinit, hobjects, h₁⟩ := h.init_run hx rfl
    refine ⟨m₁, owned₁, by rw [initForSwap, if_pos rfl]; exact hinit, ?_, hobjects, h₁⟩
    rintro ⟨v, rfl⟩
    obtain ⟨s, ox, -, -⟩ := h.slot hx
    have hdone : init x m = (.ok (), m) := by
      rw [init, Eff.bind_run_ok (getObject_of ox), if_neg (by simp)]
      rfl
    exact congrArg Prod.snd (hinit.symm.trans hdone)
  · obtain ⟨v, hv⟩ := hfull x k c hx hk
    exact ⟨m, owned, by rw [initForSwap, if_neg hk]; rfl, fun _ => rfl, fun _ _ => rfl, hkept v hv⟩

/-- The contents behind two pointers change places. -/
theorem Repr.swapContents_run (throws : Bool) (h : Repr m a owned n) {x y : X} {k k' : WrapperKind}
    {u v : CciValue} (hx : a x = some (k, some v)) (hy : a y = some (k', some u)) {p q : Option ℕ}
    (ox : m.objects x = some ⟨k, p, p⟩) (oy : m.objects y = some ⟨k', q, q⟩) :
    ∃ m₁, (if p = none ∨ q = none then
        valueAssertFailed throws .report "pimpl_ && that.pimpl_" "swap with invalid value failed"
      else do
        let v ← deref p
        let u ← deref q
        assignAt p u
        assignAt q v : StorageM X Unit) m = (.ok (), m₁) ∧
      Repr m₁ (Function.update (Function.update a x (some (k, some u))) y (some (k', some v)))
        owned n := by
  obtain ⟨s, ox', -, -⟩ := h.slot hx
  cases ox'.symm.trans ox
  obtain ⟨t, oy', -, -⟩ := h.slot hy
  cases oy'.symm.trans oy
  obtain ⟨p', ox'', hderef⟩ := h.deref_run hx
  cases ox''.symm.trans ox
  obtain ⟨q', oy'', hderef'⟩ := h.deref_run hy
  cases oy''.symm.trans oy
  obtain ⟨m₁, hassign, hobjects, h₁⟩ := h.assignAt_run hx ox u
  have hy₁ : Function.update a x (some (k, some u)) y = some (k', some u) := by
    by_cases hyx : y = x
    · subst hyx
      cases ox.symm.trans oy
      exact Function.update_self _ _ _
    · exact (Function.update_of_ne hyx _ _).trans hy
  obtain ⟨m₂, hassign', -, h₂⟩ := h₁.assignAt_run hy₁ (hobjects ▸ oy) v
  refine ⟨m₂, ?_, h₂⟩
  rw [if_neg (by simp), Eff.bind_run_ok hderef, Eff.bind_run_ok hderef', Eff.bind_run_ok hassign]
  exact hassign'

namespace Op

variable (throws : Bool)

theorem construct_agrees (h : Repr m a owned n) (k : WrapperKind) (x : X) :
    Agrees n ((construct k x).exec throws m) ((construct k x).meaning throws a) := by
  rcases h.fresh_run x k with ⟨hnew, hfresh⟩ | ⟨-, hfresh, m₁, hnew, hobjects, h₁⟩
  · exact .throw (Eff.bind_run_throw hnew _) (Eff.bind_run_throw hfresh _)
  · rw [exec, meaning, Eff.bind_run_ok hnew, Eff.bind_run_ok hfresh]
    by_cases hk : k = .value
    · rw [if_pos hk, if_pos hk]
      exact .kept rfl rfl h₁
    · rw [if_neg hk, if_neg hk]
      obtain ⟨m₂, s, owned₂, hrun, -, h₂⟩ := h₁.newWithStorage hobjects
      exact .ok hrun rfl h₂

theorem constructValue_agrees (h : Repr m a owned n) (x : X) (v : CciValue) :
    Agrees n ((constructValue x v).exec throws m) ((constructValue x v).meaning throws a) := by
  rcases h.fresh_run x .value with ⟨hnew, hfresh⟩ | ⟨-, hfresh, m₁, hnew, hobjects, h₁⟩
  · exact .throw (Eff.bind_run_throw hnew _) (Eff.bind_run_throw hfresh _)
  · obtain ⟨m₂, s, owned₂, hrun, hobjects₂, h₂⟩ := h₁.newWithStorage hobjects
    have ho : m₂.objects x = some ⟨.value, some s, some s⟩ := by
      rw [hobjects₂, Function.update_self]
    obtain ⟨m₃, hassign, -, h₃⟩ := h₂.assignAt_run (Function.update_self _ _ _) ho v
    rw [Function.update_idem] at h₃
    rw [exec, meaning, Eff.bind_run_ok hnew, Eff.bind_run_ok hrun,
      Eff.bind_run_ok (getObject_of ho), Eff.bind_run_ok hfresh]
    exact .ok hassign rfl h₃

theorem copyConstruct_agrees (h : Repr m a owned n) (k : WrapperKind) (x y : X) :
    Agrees n ((copyConstruct k x y).exec throws m) ((copyConstruct k x y).meaning throws a) := by
  rcases h.reference_run (x := y) throws k.ref with ⟨e, href, hthrough⟩ | ⟨href, hthrough⟩ |
    ⟨ky, d, q, hy, oy, href, hthrough⟩
  · exact .throw (Eff.bind_run_throw href _) (Eff.bind_run_throw hthrough _)
  · refine .abort (t := m) (b := a) ?_ ?_
    · rw [exec, Eff.bind_run, href]
    · rw [meaning, Eff.bind_run, hthrough]
  · rw [exec, meaning, Eff.bind_run_ok href, Eff.bind_run_ok hthrough]
    rcases h.fresh_run x k with ⟨hnew, hfresh⟩ | ⟨hx, hfresh, m₁, hnew, hobjects, h₁⟩
    · exact .throw (Eff.bind_run_throw hnew _) (Eff.bind_run_throw hfresh _)
    · rw [Eff.bind_run_ok hnew, Eff.bind_run_ok hfresh]
      have hyx : y ≠ x := fun heq => by
        subst heq
        cases hx.symm.trans hy
      by_cases hk : k = .value
      · subst hk
        have hy₁ : Function.update a x (some (WrapperKind.value, none)) y = some (ky, d) :=
          (Function.update_of_ne hyx _ _).trans hy
        have oy₁ : m₁.objects y = some ⟨ky, q, q⟩ := by
          rw [hobjects, Function.update_of_ne hyx, oy]
        obtain ⟨m₂, owned₂, hassign, h₂⟩ := h₁.assignValue_run (Function.update_self _ _ _) hy₁ oy₁
        rw [Function.update_idem] at h₂
        exact .ok hassign rfl h₂
      · rw [if_neg hk, if_neg hk]
        obtain ⟨m₂, s, owned₂, hrun, hobjects₂, h₂⟩ := h₁.newWithStorage hobjects
        rw [Eff.bind_run_ok hrun]
        have ho : m₂.objects x = some ⟨k, some s, some s⟩ := by
          rw [hobjects₂, Function.update_self]
        have hy₂ : Function.update a x (some (k, some k.ref.emptied)) y = some (ky, d) :=
          (Function.update_of_ne hyx _ _).trans hy
        have oy₂ : m₂.objects y = some ⟨ky, q, q⟩ := by
          rw [hobjects₂, Function.update_of_ne hyx, oy]
        have hself : (some k.ref.emptied : Option CciValue).any k.ref.holds = true := by
          cases k <;> rfl
        rcases h₂.assignOther_run hk (Function.update_self _ _ _) hy₂ ho oy₂ with
          ⟨hno, hassign⟩ | ⟨hyes, m₃, hassign, h₃⟩
        · rw [hself, Bool.true_and] at hno
          refine .abort hassign (b := a) ?_
          rw [hno]
          rfl
        · rw [hself, Bool.true_and] at hyes
          rw [Function.update_idem] at h₃
          refine .ok hassign ?_ h₃
          rw [hyes]
          rfl

theorem moveConstruct_agrees (h : Repr m a owned n) (x y : X) :
    Agrees n ((moveConstruct x y).exec throws m) ((moveConstruct x y).meaning throws a) := by
  rcases h.getKind_run (x := y) .value with ⟨hget, hlookup⟩ | ⟨c, q, hy, oy, hget, hlookup⟩
  · exact .throw (Eff.bind_run_throw hget _) (Eff.bind_run_throw hlookup _)
  · rw [exec, meaning, Eff.bind_run_ok hget, Eff.bind_run_ok hlookup]
    rcases h.fresh_run x .value with ⟨hnew, hfresh⟩ | ⟨hx, hfresh, m₁, hnew, hobjects, h₁⟩
    · exact .throw (Eff.bind_run_throw hnew _) (Eff.bind_run_throw hfresh _)
    · rw [Eff.bind_run_ok hnew, Eff.bind_run_ok hfresh]
      have hyx : y ≠ x := fun heq => by
        subst heq
        cases hx.symm.trans hy
      have hy₁ : Function.update a x (some (WrapperKind.value, none)) y = some (.value, c) :=
        (Function.update_of_ne hyx _ _).trans hy
      have oy₁ : m₁.objects y = some ⟨.value, q, q⟩ := by
        rw [hobjects, Function.update_of_ne hyx, oy]
      have ox₁ : m₁.objects x = some ⟨.value, none, none⟩ := by
        rw [hobjects, Function.update_self]
      have hmoved := h₁.exchange (Function.update_self _ _ _) hy₁ ox₁ oy₁
      rw [Function.update_idem] at hmoved
      exact .kept rfl rfl hmoved

/-- The class of the source is not `cci_value`, and the target is a `cci_value` or of that class. -/
theorem moveConstructFrom_agrees (h : Repr m a owned n) (hfull : Full a) (k k' : WrapperKind)
    (x y : X) : Agrees n ((moveConstructFrom k k' x y).exec throws m)
      ((moveConstructFrom k k' x y).meaning throws a) := by
  rcases h.getKind_run (x := y) k' with ⟨hget, hlookup⟩ | ⟨c, q, hy, oy, hget, hlookup⟩
  · exact .throw (Eff.bind_run_throw hget _) (Eff.bind_run_throw hlookup _)
  · rw [exec, meaning, Eff.bind_run_ok hget, Eff.bind_run_ok hlookup]
    by_cases hkinds : k' = .value ∨ k ≠ .value ∧ k ≠ k'
    · rw [if_pos hkinds, if_pos hkinds]
      exact .throw rfl rfl
    · rw [if_neg hkinds, if_neg hkinds]
      obtain ⟨v, rfl⟩ := hfull y k' c hy fun heq => hkinds (.inl heq)
      rcases h.fresh_run x k with ⟨hnew, hfresh⟩ | ⟨hx, hfresh, m₁, hnew, hobjects, h₁⟩
      · exact .throw (Eff.bind_run_throw hnew _) (Eff.bind_run_throw hfresh _)
      · have hxy : x ≠ y := fun heq => by
          subst heq
          cases hx.symm.trans hy
        obtain ⟨m₂, s, owned₂, hrun, hobjects₂, h₂⟩ := h₁.newWithStorage hobjects
        have ox₂ : m₂.objects x = some ⟨k, some s, some s⟩ := by
          rw [hobjects₂, Function.update_self]
        have oy₂ : m₂.objects y = some ⟨k', q, q⟩ := by
          rw [hobjects₂, Function.update_of_ne hxy.symm, oy]
        have hy₂ : Function.update a x (some (k, some k.ref.emptied)) y = some (k', some v) :=
          (Function.update_of_ne hxy.symm _ _).trans hy
        obtain ⟨m₃, hmove, h₃⟩ := h₂.moveContents_run hxy (Function.update_self _ _ _) hy₂ ox₂ oy₂
          k'.ref
        rw [Function.update_idem] at h₃
        rw [Eff.bind_run_ok hnew, Eff.bind_run_ok hrun, Eff.bind_run_ok (getObject_of ox₂),
          Eff.bind_run_ok hfresh]
        exact .ok hmove rfl h₃

theorem assign_agrees (h : Repr m a owned n) (k : WrapperKind) (x y : X) :
    Agrees n ((assign k x y).exec throws m) ((assign k x y).meaning throws a) := by
  rcases h.getKind_run (x := x) k with ⟨hget, hlookup⟩ | ⟨c, p, hx, ox, hget, hlookup⟩
  · exact .throw (Eff.bind_run_throw hget _) (Eff.bind_run_throw hlookup _)
  · rw [exec, meaning, Eff.bind_run_ok hget, Eff.bind_run_ok hlookup]
    rcases h.reference_run (x := y) throws k.ref with ⟨e, href, hthrough⟩ | ⟨href, hthrough⟩ |
      ⟨ky, d, q, hy, oy, href, hthrough⟩
    · exact .throw (Eff.bind_run_throw href _) (Eff.bind_run_throw hthrough _)
    · refine .abort (t := m) (b := a) ?_ ?_
      · rw [Eff.bind_run, href]
      · rw [Eff.bind_run, hthrough]
    · rw [Eff.bind_run_ok href, Eff.bind_run_ok hthrough]
      by_cases hk : k = .value
      · subst hk
        obtain ⟨m₁, owned₁, hassign, h₁⟩ := h.assignValue_run hx hy oy
        exact .ok hassign rfl h₁
      · rw [if_neg hk]
        rcases h.assignOther_run hk hx hy ox oy with ⟨hno, hassign⟩ | ⟨hyes, m₁, hassign, h₁⟩
        · refine .abort hassign (b := a) ?_
          rw [hno]
          rfl
        · refine .kept hassign ?_ h₁
          rw [hyes]
          rfl

theorem moveAssign_agrees (h : Repr m a owned n) (x y : X) :
    Agrees n ((moveAssign x y).exec throws m) ((moveAssign x y).meaning throws a) := by
  rcases h.getKind_run (x := x) .value with ⟨hget, hlookup⟩ | ⟨c, p, hx, ox, hget, hlookup⟩
  · exact .throw (Eff.bind_run_throw hget _) (Eff.bind_run_throw hlookup _)
  · rw [exec, meaning, Eff.bind_run_ok hget, Eff.bind_run_ok hlookup]
    rcases h.getKind_run (x := y) .value with ⟨hget', hlookup'⟩ | ⟨d, q, hy, oy, hget', hlookup'⟩
    · exact .throw (Eff.bind_run_throw hget' _) (Eff.bind_run_throw hlookup' _)
    · rw [Eff.bind_run_ok hget', Eff.bind_run_ok hlookup']
      by_cases hxy : x = y
      · subst hxy
        cases ox.symm.trans oy
        rw [if_pos rfl, if_pos rfl]
        exact .kept rfl rfl h
      · rw [if_neg hxy]
        by_cases hpq : p = q
        · -- Neither of two different objects has storage.
          subst hpq
          have hnone : p = none := by
            cases p with
            | none => rfl
            | some s => exact absurd (h.unique x y s ⟨_, ox, rfl⟩ ⟨_, oy, rfl⟩) hxy
          subst hnone
          rw [if_pos rfl]
          have hbare : ∀ (z : X) (e : Option CciValue), a z = some (.value, e) →
              m.objects z = some ⟨.value, none, none⟩ → e = none := by
            intro z e hz oz
            obtain ⟨r, oz', he⟩ := h.object hz
            cases oz'.symm.trans oz
            exact he.symm
          obtain rfl := hbare x c hx ox
          obtain rfl := hbare y d hy oy
          have hput : Function.update (Function.update a x (some (WrapperKind.value, none))) y
              (some (WrapperKind.value, none)) = a := by
            rw [← hx, Function.update_eq_self, hx, ← hy, Function.update_eq_self]
          have hkept : Repr m (Function.update (Function.update a x (some (WrapperKind.value, none))) y
              (some (WrapperKind.value, none))) owned n := hput.symm ▸ h
          exact .kept rfl rfl hkept
        · rw [if_neg hpq]
          obtain ⟨P, owned', hdealloc, h₁⟩ := h.release_run hx ox
          rw [Eff.bind_run_ok hdealloc]
          have hy₁ : Function.update a x (some (WrapperKind.value, none)) y = some (.value, d) :=
            (Function.update_of_ne (Ne.symm hxy) _ _).trans hy
          have oy₁ : Function.update m.objects x (some ⟨.value, none, none⟩) y =
              some ⟨.value, q, q⟩ := (Function.update_of_ne (Ne.symm hxy) _ _).trans oy
          have hmoved := h₁.exchange (Function.update_self _ _ _) hy₁ (Function.update_self _ _ _) oy₁
          rw [Function.update_idem, Function.update_idem] at hmoved
          exact .kept rfl rfl hmoved

theorem moveAssignFrom_agrees (h : Repr m a owned n) (hfull : Full a) (k k' : WrapperKind)
    (x y : X) : Agrees n ((moveAssignFrom k k' x y).exec throws m)
      ((moveAssignFrom k k' x y).meaning throws a) := by
  rcases h.getKind_run (x := x) k with ⟨hget, hlookup⟩ | ⟨c, p, hx, ox, hget, hlookup⟩
  · exact .throw (Eff.bind_run_throw hget _) (Eff.bind_run_throw hlookup _)
  · rw [exec, meaning, Eff.bind_run_ok hget, Eff.bind_run_ok hlookup]
    rcases h.getKind_run (x := y) k' with ⟨hget', hlookup'⟩ | ⟨d, q, hy, oy, hget', hlookup'⟩
    · exact .throw (Eff.bind_run_throw hget' _) (Eff.bind_run_throw hlookup' _)
    · rw [Eff.bind_run_ok hget', Eff.bind_run_ok hlookup']
      by_cases hkinds : k' = .value ∨ k ≠ .value ∧ k ≠ k'
      · rw [if_pos hkinds, if_pos hkinds]
        exact .throw rfl rfl
      · rw [if_neg hkinds, if_neg hkinds]
        have hk' : k' ≠ .value := fun heq => hkinds (.inl heq)
        obtain ⟨v, rfl⟩ := hfull y k' d hy hk'
        by_cases hk : k = .value
        · subst hk
          have hxy : x ≠ y := fun heq => by
            subst heq
            cases hx.symm.trans hy
            exact hk' rfl
          rw [if_pos rfl, if_neg hxy]
          obtain ⟨m₁, owned₁, hinit, hkept, h₁⟩ := h.init_run hx rfl
          obtain ⟨s, ox₁, -, -⟩ := h₁.slot (Function.update_self x (some (WrapperKind.value, _)) a)
          have hy₁ : Function.update a x (some (WrapperKind.value, some (c.getD .null))) y =
              some (k', some v) := (Function.update_of_ne (Ne.symm hxy) _ _).trans hy
          obtain ⟨m₂, hmove, h₂⟩ := h₁.moveContents_run hxy (Function.update_self _ _ _) hy₁ ox₁
            ((hkept y (Ne.symm hxy)).trans oy) k'.ref
          rw [Function.update_idem] at h₂
          rw [Eff.bind_run_ok hinit, Eff.bind_run_ok (getObject_of ox₁)]
          exact .ok hmove rfl h₂
        · rw [if_neg hk]
          obtain ⟨u, rfl⟩ := hfull x k c hx hk
          obtain ⟨s, ox', -, -⟩ := h.slot hx
          cases ox'.symm.trans ox
          by_cases hxy : x = y
          · subst hxy
            cases ox.symm.trans oy
            rw [if_pos rfl, if_pos rfl]
            exact .kept rfl rfl h
          · have hpq : some s ≠ q := fun heq =>
              hxy (h.unique x y s ⟨_, ox, rfl⟩ ⟨_, oy, heq.symm⟩)
            rw [if_neg hpq, if_neg hxy]
            obtain ⟨m₁, hmove, h₁⟩ := h.moveContents_run hxy hx hy ox oy k'.ref
            exact .kept hmove rfl h₁

theorem swap_agrees (h : Repr m a owned n) (k : WrapperKind) (x y : X) :
    Agrees n ((swap k x y).exec throws m) ((swap k x y).meaning throws a) := by
  rcases h.getKind_run (x := x) k with ⟨hget, hlookup⟩ | ⟨c, p, hx, ox, hget, hlookup⟩
  · exact .throw (Eff.bind_run_throw hget _) (Eff.bind_run_throw hlookup _)
  · rw [exec, meaning, Eff.bind_run_ok hget, Eff.bind_run_ok hlookup]
    rcases h.getKind_run (x := y) k with ⟨hget', hlookup'⟩ | ⟨d, q, hy, oy, hget', hlookup'⟩
    · exact .throw (Eff.bind_run_throw hget' _) (Eff.bind_run_throw hlookup' _)
    · rw [Eff.bind_run_ok hget', Eff.bind_run_ok hlookup']
      exact .kept rfl rfl (h.exchange hx hy ox oy)

theorem swapRef_agrees (h : Repr m a owned n) (hfull : Full a) (k : WrapperKind) (x y : X) :
    Agrees n ((swapRef k x y).exec throws m) ((swapRef k x y).meaning throws a) := by
  rcases h.getKind_run (x := x) k with ⟨hget, hlookup⟩ | ⟨c, p, hx, ox, hget, hlookup⟩
  · exact .throw (Eff.bind_run_throw hget _) (Eff.bind_run_throw hlookup _)
  · rw [exec, meaning, Eff.bind_run_ok hget, Eff.bind_run_ok hlookup]
    rcases h.reference_run (x := y) throws k.ref with ⟨e, href, hthrough⟩ | ⟨href, hthrough⟩ |
      ⟨ky, d, q, hy, oy, href, hthrough⟩
    · exact .throw (Eff.bind_run_throw href _) (Eff.bind_run_throw hthrough _)
    · refine .abort (t := m) (b := a) ?_ ?_
      · rw [Eff.bind_run, href]
      · rw [Eff.bind_run, hthrough]
    · obtain ⟨m₁, owned₁, hready, hsame, hobjects, h₁⟩ := h.initForSwap_run hfull hx
      obtain ⟨s, ox₁, -, -⟩ := h₁.slot (Function.update_self x (some (k, _)) a)
      rw [Eff.bind_run_ok href, Eff.bind_run_ok hthrough, Eff.bind_run_ok hready,
        Eff.bind_run_ok (getObject_of ox₁)]
      cases d with
      | none =>
        cases (h.noSlot hy).symm.trans oy
        rw [if_pos (.inr rfl)]
        cases throws with
        | true => exact .throw rfl rfl
        | false => exact .abort rfl rfl
      | some u =>
        have hy₁ : Function.update a x (some (k, some (c.getD .null))) y = some (ky, some u) ∧
            m₁.objects y = some ⟨ky, q, q⟩ := by
          by_cases hyx : y = x
          · subst hyx
            cases hx.symm.trans hy
            rw [hsame ⟨u, rfl⟩]
            exact ⟨Function.update_self _ _ _, oy⟩
          · exact ⟨(Function.update_of_ne hyx _ _).trans hy, (hobjects y hyx).trans oy⟩
        obtain ⟨m₂, hrun, h₂⟩ :=
          h₁.swapContents_run throws (Function.update_self _ _ _) hy₁.1 ox₁ hy₁.2
        rw [Function.update_idem] at h₂
        refine .ok hrun ?_ h₂
        -- The value `init()` has given the object is overwritten.
        show (Outcome.ok (), Function.update (Function.update (Function.update a x _) x _) y _) = _
        rw [Function.update_idem]

theorem set_agrees (h : Repr m a owned n) (x : X) (v : CciValue) :
    Agrees n ((set x v).exec throws m) ((set x v).meaning throws a) := by
  rcases h.getKind_run (x := x) .value with ⟨hget, hlookup⟩ | ⟨c, p, hx, ox, hget, hlookup⟩
  · exact .throw (Eff.bind_run_throw hget _) (Eff.bind_run_throw hlookup _)
  · obtain ⟨m₁, owned₁, hinit, -, h₁⟩ := h.init_run hx rfl
    obtain ⟨s, ox₁, -, -⟩ := h₁.slot (Function.update_self x (some (WrapperKind.value, _)) a)
    obtain ⟨m₂, hassign, -, h₂⟩ := h₁.assignAt_run (Function.update_self _ _ _) ox₁ v
    rw [Function.update_idem] at h₂
    rw [exec, meaning, Eff.bind_run_ok hget, Eff.bind_run_ok hlookup, Eff.bind_run_ok hinit,
      Eff.bind_run_ok (getObject_of ox₁)]
    exact .ok hassign rfl h₂

theorem update_agrees (h : Repr m a owned n) (k : RefKind) (x : X) (f : CciValue → CciValue) :
    Agrees n ((update k x f).exec throws m) ((update k x f).meaning throws a) := by
  rcases h.reference_run (x := x) throws k with ⟨e, href, hthrough⟩ | ⟨href, hthrough⟩ |
    ⟨kx, c, p, hx, ox, href, hthrough⟩
  · exact .throw (Eff.bind_run_throw href _) (Eff.bind_run_throw hthrough _)
  · refine .abort (t := m) (b := a) ?_ ?_
    · rw [exec, Eff.bind_run, href]
    · rw [meaning, Eff.bind_run, hthrough]
  · rw [exec, meaning, Eff.bind_run_ok href, Eff.bind_run_ok hthrough]
    cases c with
    | none =>
      cases (h.noSlot hx).symm.trans ox
      exact .abort rfl rfl
    | some v =>
      obtain ⟨s, ox', -, -⟩ := h.slot hx
      cases ox'.symm.trans ox
      obtain ⟨p, ox'', hderef⟩ := h.deref_run hx
      cases ox''.symm.trans ox
      obtain ⟨m₁, hassign, -, h₁⟩ := h.assignAt_run hx ox (f v)
      rw [if_neg (by simp), Eff.bind_run_ok hderef]
      exact .kept hassign rfl h₁

theorem moveOut_agrees (h : Repr m a owned n) (k : RefKind) (x y : X) :
    Agrees n ((moveOut k x y).exec throws m) ((moveOut k x y).meaning throws a) := by
  rcases h.reference_run (x := y) throws k with ⟨e, href, hthrough⟩ | ⟨href, hthrough⟩ |
    ⟨ky, d, q, hy, oy, href, hthrough⟩
  · exact .throw (Eff.bind_run_throw href _) (Eff.bind_run_throw hthrough _)
  · refine .abort (t := m) (b := a) ?_ ?_
    · rw [exec, Eff.bind_run, href]
    · rw [meaning, Eff.bind_run, hthrough]
  · rw [exec, meaning, Eff.bind_run_ok href, Eff.bind_run_ok hthrough]
    rcases h.fresh_run x .value with ⟨hnew, hfresh⟩ | ⟨hx, hfresh, m₁, hnew, hobjects, h₁⟩
    · exact .throw (Eff.bind_run_throw hnew _) (Eff.bind_run_throw hfresh _)
    · rw [Eff.bind_run_ok hnew, Eff.bind_run_ok hfresh]
      have hxy : x ≠ y := fun heq => by
        subst heq
        cases hx.symm.trans hy
      obtain ⟨m₂, s, owned₂, hrun, hobjects₂, h₂⟩ := h₁.newWithStorage hobjects
      have ox₂ : m₂.objects x = some ⟨.value, some s, some s⟩ := by
        rw [hobjects₂, Function.update_self]
      have oy₂ : m₂.objects y = some ⟨ky, q, q⟩ := by
        rw [hobjects₂, Function.update_of_ne hxy.symm, oy]
      have hy₂ : Function.update a x (some (WrapperKind.value, some CciValue.null)) y =
          some (ky, d) := (Function.update_of_ne hxy.symm _ _).trans hy
      rw [Eff.bind_run_ok hrun, Eff.bind_run_ok (getObject_of ox₂)]
      cases d with
      | none =>
        cases (h.noSlot hy).symm.trans oy
        exact .throw rfl rfl
      | some v =>
        obtain ⟨m₃, hmove, h₃⟩ := h₂.moveContents_run hxy (Function.update_self _ _ _) hy₂ ox₂ oy₂ k
        rw [Function.update_idem] at h₃
        exact .ok hmove rfl h₃

theorem destroy_agrees (h : Repr m a owned n) (x : X) :
    Agrees n ((destroy x).exec throws m) ((destroy x).meaning throws a) := by
  rcases h.getObject_run (x := x) with ⟨-, hget, hlookup⟩ | ⟨k, c, p, hx, ox, hget, hlookup⟩
  · exact .throw (Eff.bind_run_throw hget _) (Eff.bind_run_throw hlookup _)
  · obtain ⟨P, owned', hdealloc, h₁⟩ := h.release_run hx ox
    have hgone := h₁.setObject_bare (h₁.not_owns_of_noSlot (Function.update_self _ _ _)) none
    rw [Option.map_none, Option.map_none, Function.update_idem, Function.update_idem] at hgone
    rw [exec, meaning, Eff.bind_run_ok hget, Eff.bind_run_ok hlookup, Eff.bind_run_ok hdealloc]
    exact .kept rfl rfl hgone

end Op

/-! ### Lists and maps are never without a value -/

/-- The computation keeps `Full` and returns what `Q` says. -/
def Gives {α : Type} (Q : α → Prop) (d : EnvM X α) : Prop :=
  ∀ a, Full a → Full (d a).2 ∧ ∀ r, (d a).1 = .ok r → Q r

namespace Gives

variable {α β : Type} {Q : α → Prop} {R : β → Prop}

omit [DecidableEq X]

theorem bind {d : EnvM X α} {f : α → EnvM X β} (hd : Gives Q d) (hf : ∀ r, Q r → Gives R (f r)) :
    Gives R (d >>= f) := by
  intro a ha
  obtain ⟨hfull, hret⟩ := hd a ha
  rw [Eff.bind_run]
  rcases hr : d a with ⟨r | e | _ | _, b⟩ <;> rw [hr] at hfull hret
  · exact hf r (hret r rfl) b hfull
  · exact ⟨hfull, fun r h => by cases h⟩
  · exact ⟨hfull, fun r h => by cases h⟩
  · exact ⟨hfull, fun r h => by cases h⟩

theorem pure {r : α} (hr : Q r) : Gives Q (Pure.pure r : EnvM X α) := by
  intro a ha
  refine ⟨ha, fun r' h => ?_⟩
  cases h
  exact hr

theorem raise (e : Failure) : Gives Q (Eff.raise e : EnvM X α) :=
  fun _ ha => ⟨ha, fun _ h => by cases h⟩

theorem abort : Gives Q (Eff.abort : EnvM X α) := fun _ ha => ⟨ha, fun _ h => by cases h⟩

theorem ite {c : Prop} [Decidable c] {d d' : EnvM X α} (hd : c → Gives Q d) (hd' : ¬c → Gives Q d') :
    Gives Q (if c then d else d') := by
  split
  · exact hd ‹_›
  · exact hd' ‹_›

theorem valueAssertFailed (throws : Bool) (cond msg : String) :
    Gives Q (valueAssertFailed throws Failure.report cond msg : EnvM X α) :=
  .ite (fun _ => .raise _) fun _ => .abort

theorem lookup (x : X) :
    Gives (fun o : WrapperKind × Option CciValue => o.1 ≠ .value → ∃ v, o.2 = some v)
      (Env.lookup x) := by
  intro a ha
  cases hx : a x with
  | none =>
    have hrun : Env.lookup x a = (.throw .noObject, a) := by simp only [Env.lookup, hx]
    rw [hrun]
    exact ⟨ha, fun r h => by cases h⟩
  | some o =>
    have hrun : Env.lookup x a = (.ok o, a) := by simp only [Env.lookup, hx]
    rw [hrun]
    refine ⟨ha, fun r h => ?_⟩
    cases h
    exact ha x o.1 o.2 hx

theorem lookupKind (k : WrapperKind) (x : X) :
    Gives (fun c : Option CciValue => k ≠ .value → ∃ v, c = some v) (Env.lookupKind k x) :=
  (lookup x).bind fun _ ho => .ite (fun hk => .pure (hk ▸ ho)) fun _ => .raise _

theorem through (throws : Bool) (k : RefKind) (y : X) :
    Gives (fun o : WrapperKind × Option CciValue => o.1 ≠ .value → ∃ v, o.2 = some v)
      (Env.through throws k y) :=
  (lookup y).bind fun _ ho =>
    .ite (fun _ => .pure ho) fun _ => .ite (fun _ => .pure ho) fun _ =>
      .valueAssertFailed throws _ _

theorem fresh (x : X) : Gives (fun _ => True) (Env.fresh x) := by
  intro a ha
  unfold Env.fresh
  split <;> exact ⟨ha, fun _ _ => trivial⟩

theorem put [DecidableEq X] (x : X) {k : WrapperKind} {c : Option CciValue}
    (hc : k ≠ .value → ∃ v, c = some v) : Gives (fun _ => True) (Env.put x k c) := by
  intro a ha
  refine ⟨fun y k' c' hy hk' => ?_, fun _ _ => trivial⟩
  have hy' : Function.update a x (some (k, c)) y = some (k', c') := hy
  by_cases hyx : y = x
  · subst hyx
    rw [Function.update_self] at hy'
    cases hy'
    exact hc hk'
  · rw [Function.update_of_ne hyx] at hy'
    exact ha y k' c' hy' hk'

end Gives

theorem exists_of_any {p : CciValue → Bool} {c : Option CciValue} (h : c.any p = true) :
    ∃ v, c = some v := by
  cases c with
  | none => cases h
  | some v => exact ⟨v, rfl⟩

/-- The operations keep it so. -/
theorem Op.meaning_full (throws : Bool) (op : Op X) : Gives (fun _ => True) (op.meaning throws) := by
  have hvalue : ∀ {c : Option CciValue}, WrapperKind.value ≠ .value → ∃ v, c = some v :=
    fun h => absurd rfl h
  cases op with
  | construct k x =>
    refine (Gives.fresh x).bind fun _ _ => .put x fun hk => ?_
    rw [if_neg hk]
    exact ⟨_, rfl⟩
  | constructValue x v => exact (Gives.fresh x).bind fun _ _ => .put x hvalue
  | copyConstruct k x y =>
    refine (Gives.through throws k.ref y).bind fun _ _ => (Gives.fresh x).bind fun _ _ => ?_
    exact .ite (fun _ => .put x hvalue) fun _ =>
      .ite (fun h => .put x fun _ => exists_of_any h) fun _ => .abort
  | moveConstruct x y =>
    exact (Gives.lookupKind .value y).bind fun c _ => (Gives.fresh x).bind fun _ _ =>
      (Gives.put x hvalue).bind fun _ _ => .put y hvalue
  | moveConstructFrom k k' x y =>
    refine (Gives.lookupKind k' y).bind fun c hc => .ite (fun _ => .raise _) fun hkinds => ?_
    exact (Gives.fresh x).bind fun _ _ =>
      (Gives.put x fun _ => hc fun heq => hkinds (.inl heq)).bind fun _ _ => .put y fun _ => ⟨_, rfl⟩
  | assign k x y =>
    refine (Gives.lookupKind k x).bind fun c _ => (Gives.through throws k.ref y).bind fun o _ => ?_
    exact .ite (fun _ => .put x hvalue) fun _ =>
      .ite (fun h => .put x fun _ => exists_of_any (Bool.and_eq_true_iff.1 h).2) fun _ => .abort
  | moveAssign x y =>
    refine (Gives.lookupKind .value x).bind fun _ _ => (Gives.lookupKind .value y).bind fun c _ => ?_
    exact .ite (fun _ => .pure trivial) fun _ =>
      (Gives.put x hvalue).bind fun _ _ => .put y hvalue
  | moveAssignFrom k k' x y =>
    refine (Gives.lookupKind k x).bind fun _ _ => (Gives.lookupKind k' y).bind fun c hc =>
      .ite (fun _ => .raise _) fun hkinds => .ite (fun _ => .pure trivial) fun _ => ?_
    exact (Gives.put x fun _ => hc fun heq => hkinds (.inl heq)).bind fun _ _ =>
      .put y fun _ => ⟨_, rfl⟩
  | swap k x y =>
    exact (Gives.lookupKind k x).bind fun c hc => (Gives.lookupKind k y).bind fun d hd =>
      (Gives.put x hd).bind fun _ _ => .put y hc
  | swapRef k x y =>
    refine (Gives.lookupKind k x).bind fun c _ => (Gives.through throws k.ref y).bind fun o _ =>
      (Gives.put x fun _ => ⟨_, rfl⟩).bind fun _ _ => ?_
    obtain ⟨k', d⟩ := o
    cases d with
    | none => exact .valueAssertFailed throws _ _
    | some u =>
      exact (Gives.put x fun _ => ⟨_, rfl⟩).bind fun _ _ => .put y fun _ => ⟨_, rfl⟩
  | set x v => exact (Gives.lookupKind .value x).bind fun _ _ => .put x hvalue
  | update k x f =>
    refine (Gives.through throws k x).bind fun o _ => ?_
    obtain ⟨k', d⟩ := o
    cases d with
    | none => exact .abort
    | some v => exact .put x fun _ => ⟨_, rfl⟩
  | moveOut k x y =>
    refine (Gives.through throws k y).bind fun o _ => (Gives.fresh x).bind fun _ _ => ?_
    obtain ⟨k', d⟩ := o
    cases d with
    | none => exact .raise _
    | some v => exact (Gives.put x hvalue).bind fun _ _ => .put y fun _ => ⟨_, rfl⟩
  | destroy x =>
    refine (Gives.lookup x).bind fun _ _ => fun a ha => ⟨fun y k c hy hk => ?_, fun _ _ => trivial⟩
    have hy' : Function.update a x none y = some (k, c) := hy
    by_cases hyx : y = x
    · subst hyx
      rw [Function.update_self] at hy'
      cases hy'
    · rw [Function.update_of_ne hyx] at hy'
      exact ha y k c hy' hk

/-- Each operation does what its meaning says. -/
theorem Op.agrees (throws : Bool) (op : Op X) (h : Repr m a owned n) (hfull : Full a) :
    Agrees n (op.exec throws m) (op.meaning throws a) := by
  cases op with
  | construct k x => exact construct_agrees throws h k x
  | constructValue x v => exact constructValue_agrees throws h x v
  | copyConstruct k x y => exact copyConstruct_agrees throws h k x y
  | moveConstruct x y => exact moveConstruct_agrees throws h x y
  | moveConstructFrom k k' x y => exact moveConstructFrom_agrees throws h hfull k k' x y
  | assign k x y => exact assign_agrees throws h k x y
  | moveAssign x y => exact moveAssign_agrees throws h x y
  | moveAssignFrom k k' x y => exact moveAssignFrom_agrees throws h hfull k k' x y
  | swap k x y => exact swap_agrees throws h k x y
  | swapRef k x y => exact swapRef_agrees throws h hfull k x y
  | set x v => exact set_agrees throws h x v
  | update k x f => exact update_agrees throws h k x f
  | moveOut k x y => exact moveOut_agrees throws h k x y
  | destroy x => exact destroy_agrees throws h x

end

/-! ### Sequences of operations -/

/-- What the objects hold. -/
def Storage.holds (m : Storage X) : Env X := fun x =>
  (m.objects x).map fun o => (o.kind, o.ownPimpl.bind m.pool.read)

/-- The objects that have been given a value. -/
def inUse (a : Env X) : Set X := {x | ∃ k v, a x = some (k, some v)}

theorem repr_empty : Repr ({} : Storage X) (fun _ => none) ∅ 0 where
  sound := Pool.sound_empty
  own s := iff_of_false (Finset.notMem_empty s) (by rintro ⟨x, o, ho, -⟩; cases ho)
  unique x y s hx _ := by
    obtain ⟨o, ho, -⟩ := hx
    cases ho
  same x o ho := by cases ho
  env x := rfl
  length := rfl

theorem full_empty : Full (fun _ => none : Env X) := fun x k c h => by cases h

section

variable {m : Storage X} {a : Env X} {owned : Finset ℕ} {n : ℕ}

/-- One slot for each object with a value. -/
theorem Repr.ncard_inUse (h : Repr m a owned n) : (inUse a).ncard = owned.card := by
  have hslot : ∀ x ∈ inUse a, ∃ s, s ∈ owned ∧ Owns m x s := by
    rintro x ⟨k, v, hx⟩
    obtain ⟨s, ho, -, hs⟩ := h.slot hx
    exact ⟨s, hs, _, ho, rfl⟩
  rw [← Set.ncard_coe_finset owned]
  refine Set.ncard_congr (fun x hx => (hslot x hx).choose)
    (fun x hx => (hslot x hx).choose_spec.1) (fun x y hx hy heq => ?_) fun s hs => ?_
  · have hown := (hslot y hy).choose_spec.2
    rw [← heq] at hown
    exact h.unique x y _ (hslot x hx).choose_spec.2 hown
  · obtain ⟨x, o, ho, hos⟩ := (h.own s).1 hs
    obtain ⟨v, hv⟩ := h.sound.read hs
    have hx : x ∈ inUse a := ⟨o.kind, v, by rw [h.env, ho, Option.map_some, hos, Option.bind_some, hv]⟩
    refine ⟨x, hx, ?_⟩
    obtain ⟨o', ho', hos'⟩ := (hslot x hx).choose_spec.2
    cases ho.symm.trans ho'
    exact Option.some.inj (hos'.symm.trans hos)

variable [DecidableEq X]

/-- A sequence of operations, from storage that stands for the values in `a`. -/
theorem Repr.run (throws : Bool) (ops : List (Op X)) (h : Repr m a owned n) (hfull : Full a) :
    (ops.forM (Op.exec throws) m).1 = (ops.forM (Op.meaning throws) a).1 ∧
    ((ops.forM (Op.exec throws) m).1 = .ok () → ∃ owned' n',
      Repr (ops.forM (Op.exec throws) m).2 (ops.forM (Op.meaning throws) a).2 owned' n' ∧
      ∀ N, n' ≤ N ↔ n ≤ N ∧ ∀ ops' a', ops' <+: ops →
        ops'.forM (Op.meaning throws) a = (.ok (), a') → (inUse a').ncard ≤ N) := by
  induction ops generalizing m a owned n with
  | nil =>
    refine ⟨rfl, fun _ => ⟨owned, n, h, fun N => ⟨fun hn => ⟨hn, fun ops' a' hpre hrun => ?_⟩,
      And.left⟩⟩⟩
    obtain rfl := List.prefix_nil.1 hpre
    cases hrun
    exact h.ncard_inUse.trans_le (h.card_le.trans hn)
  | cons op ops ih =>
    obtain ⟨hout, hrepr⟩ := op.agrees throws h hfull
    have hfull₁ := (op.meaning_full throws a hfull).1
    have hexec : (op :: ops).forM (Op.exec throws) m =
        (op.exec throws >>= fun _ => ops.forM (Op.exec throws)) m := rfl
    have hmeaning : (op :: ops).forM (Op.meaning throws) a =
        (op.meaning throws >>= fun _ => ops.forM (Op.meaning throws)) a := rfl
    rcases hr : op.exec throws m with ⟨u | e | _ | _, m₁⟩ <;> rw [hr] at hout hrepr
    · obtain ⟨owned₁, h₁⟩ := hrepr rfl
      obtain ⟨b, hb⟩ : ∃ b, op.meaning throws a = (.ok (), b) :=
        ⟨(op.meaning throws a).2, Prod.ext hout.symm rfl⟩
      rw [hb] at h₁ hfull₁
      obtain ⟨hout', hrepr'⟩ := ih h₁ hfull₁
      rw [hexec, hmeaning, Eff.bind_run_ok hr, Eff.bind_run_ok hb]
      refine ⟨hout', fun hok => ?_⟩
      obtain ⟨owned', n', hfinal, hpeak⟩ := hrepr' hok
      refine ⟨owned', n', hfinal, fun N => (hpeak N).trans ?_⟩
      constructor
      · rintro ⟨hmax, hall⟩
        refine ⟨(le_max_left _ _).trans hmax, fun ops' a' hpre hrun => ?_⟩
        cases ops' with
        | nil =>
          cases hrun
          exact h.ncard_inUse.trans_le (h.card_le.trans ((le_max_left _ _).trans hmax))
        | cons op' ops' =>
          obtain ⟨rfl, hpre'⟩ := List.cons_prefix_cons.1 hpre
          exact hall ops' a' hpre' ((Eff.bind_run_ok hb _).symm.trans hrun)
      · rintro ⟨hn, hall⟩
        have htail : ∀ ops' a', ops' <+: ops → ops'.forM (Op.meaning throws) b = (.ok (), a') →
            (inUse a').ncard ≤ N := fun ops' a' hpre hrun =>
          hall (op :: ops') a' (List.cons_prefix_cons.2 ⟨rfl, hpre⟩)
            ((Eff.bind_run_ok hb _).trans hrun)
        refine ⟨max_le hn ?_, htail⟩
        rw [← h₁.ncard_inUse]
        exact htail [] b List.nil_prefix rfl
    · have hb : op.meaning throws a = (.throw e, (op.meaning throws a).2) := Prod.ext hout.symm rfl
      rw [hexec, hmeaning, Eff.bind_run_throw hr, Eff.bind_run_throw hb]
      exact ⟨rfl, fun h => by cases h⟩
    · have hb : op.meaning throws a = (.abort, (op.meaning throws a).2) := Prod.ext hout.symm rfl
      rw [hexec, hmeaning, Eff.bind_run, Eff.bind_run, hr, hb]
      exact ⟨rfl, fun h => by cases h⟩
    · have hb : op.meaning throws a = (.diverge, (op.meaning throws a).2) := Prod.ext hout.symm rfl
      rw [hexec, hmeaning, Eff.bind_run, Eff.bind_run, hr, hb]
      exact ⟨rfl, fun h => by cases h⟩

/-- **Objects have values of their own.**  Every sequence of constructions, copies, moves, swaps,
assignments and destructions on the shared pool ends as it would if each object held its value
itself, in particular with the same report, and only where its meaning is not defined either; and when
it comes back, every object holds the value its meaning says. -/
theorem value_semantics (throws : Bool) (ops : List (Op X)) :
    (ops.forM (Op.exec throws) {}).1 = (ops.forM (Op.meaning throws) fun _ => none).1 ∧
    ((ops.forM (Op.exec throws) {}).1 = .ok () →
      (ops.forM (Op.exec throws) {}).2.holds = (ops.forM (Op.meaning throws) fun _ => none).2) := by
  obtain ⟨hout, hrepr⟩ := repr_empty.run throws ops full_empty
  refine ⟨hout, fun hok => ?_⟩
  obtain ⟨owned, n, h, -⟩ := hrepr hok
  exact funext fun x => (h.env x).symm

/-- **Storage is reused and never shared.**  After every sequence of operations that came back, no
two objects own the same slot, the free list runs through exactly the slots that no object owns,
and the pool has as many slots as there were objects with a value at its peak. -/
theorem storage_reused (throws : Bool) (ops : List (Op X)) {m : Storage X}
    (hrun : ops.forM (Op.exec throws) {} = (.ok (), m)) :
    (∀ x y s, Owns m x s → Owns m y s → x = y) ∧
    (∃ l, Pool.Chain m.pool.slots m.pool.freeList l ∧ l.Nodup ∧
      ∀ s, s ∈ l ↔ s < m.pool.slots.length ∧ ∀ x, ¬Owns m x s) ∧
    ∀ N, m.pool.slots.length ≤ N ↔ ∀ ops' a', ops' <+: ops →
      (ops'.forM (Op.meaning throws) fun _ => none) = (.ok (), a') → (inUse a').ncard ≤ N := by
  obtain ⟨-, hrepr⟩ := repr_empty.run throws ops full_empty
  rw [hrun] at hrepr
  obtain ⟨owned, n, h, hpeak⟩ := hrepr rfl
  refine ⟨h.unique, ?_, fun N => ?_⟩
  · obtain ⟨l, hchain, hnodup, hmem⟩ := h.sound.chain
    refine ⟨l, hchain, hnodup, fun s => ?_⟩
    rw [hmem, h.own, not_exists]
  · rw [h.length, hpeak]
    exact and_iff_right (Nat.zero_le N)

end

/-- A copy, a move from it into a third object, and the end of the first. -/
def copyAndMove : List (Op ℕ) :=
  [.constructValue 0 (.integer 1), .copyConstruct .value 1 0, .moveConstruct 2 1, .destroy 0,
    .set 1 (.integer 7), .swap .value 1 2]

theorem value_semantics_copyAndMove :
    (copyAndMove.forM (Op.exec true) {}).2.holds =
      (copyAndMove.forM (Op.meaning true) fun _ => none).2 :=
  (value_semantics true copyAndMove).2 rfl

theorem storage_reused_copyAndMove :
    ∃ l, Pool.Chain (copyAndMove.forM (Op.exec true) {}).2.pool.slots
        (copyAndMove.forM (Op.exec true) {}).2.pool.freeList l ∧ l.Nodup ∧
      ∀ s, s ∈ l ↔ s < (copyAndMove.forM (Op.exec true) {}).2.pool.slots.length ∧
        ∀ x, ¬Owns (copyAndMove.forM (Op.exec true) {}).2 x s :=
  (storage_reused true copyAndMove rfl).2.1

end ValueStorage

end Cci
