import Cci.Lib.SlotPool
import Cci.Core.Value

/-!
# Where values are stored

`cci_value`, `cci_value_list` and `cci_value_map` own the storage of their value, which comes from
`impl_pool` and goes back there; the pool keeps it for later objects.  The pointers may be moved and
swapped between objects.

* `Wrapper`, `Storage` — the objects with `pimpl_` and `own_pimpl_`, and the pool;
* `Op.exec` — constructors, assignments, `swap`, `move` and the destructor, as they work on pointers;
* `Op.meaning` — the same as operations on values of which each object has its own;
* `Repr` — which values a storage stands for, with a lemma for each step of an operation.
-/

namespace Cci

open Effect SlotPool

namespace ValueStorage

/-! ### Objects and references -/

/-- The classes of references. -/
inductive RefKind where
  | value | string | list | map
deriving DecidableEq, Repr

/-- The classes that own a value. -/
inductive WrapperKind where
  | value | list | map
deriving DecidableEq, Repr

/-- The reference class a wrapper derives from. -/
def WrapperKind.ref : WrapperKind → RefKind
  | .value => .value
  | .list => .list
  | .map => .map

namespace RefKind

/-- A reference of the class may refer to the value. -/
def holds : RefKind → CciValue → Bool
  | .value, _ => true
  | .string, .string _ => true
  | .list, .list _ => true
  | .map, .map _ => true
  | _, _ => false

/-- The condition that `get_string()`, `get_list()` and `get_map()` assert. -/
def query : RefKind → String
  | .value => ""
  | .string => "is_string()"
  | .list => "is_list()"
  | .map => "is_map()"

/-- What `move()` leaves behind; also the value after `do_init()`. -/
def emptied : RefKind → CciValue
  | .value => .null
  | .string => .string []
  | .list => .list []
  | .map => .map []

end RefKind

/-- An owning object. -/
structure Wrapper where
  kind : WrapperKind
  pimpl : Option ℕ := none
  ownPimpl : Option ℕ := none
deriving DecidableEq, Repr

/-- The pool and the objects alive, by name. -/
structure Storage (X : Type) where
  pool : Pool CciValue := {}
  objects : X → Option Wrapper := fun _ => none

/-- How an operation is left: where it is not defined (use of an object that does not exist or is of
another class, of a NULL pointer, and of a slot that holds no value), or by the exception of a
report. -/
inductive Failure where
  | noObject | nullPointer | deadSlot
  | report (r : Report)

abbrev StorageM (X : Type) (α : Type) : Type := Eff Failure (Storage X) α

variable {X : Type}

/-! ### Primitives -/

def getObject (x : X) : StorageM X Wrapper := fun s =>
  match s.objects x with
  | some o => (.ok o, s)
  | none => (.throw .noObject, s)

section

variable [DecidableEq X]

def setObject (x : X) (o : Option Wrapper) : StorageM X Unit :=
  Eff.modify fun s => { s with objects := Function.update s.objects x o }

/-- An object that does not exist yet comes to be, without storage. -/
def newObject (k : WrapperKind) (x : X) : StorageM X Unit := fun s =>
  match s.objects x with
  | some _ => (.throw .noObject, s)
  | none => setObject x (some { kind := k }) s

end

/-- An object of the given class. -/
def getKind (k : WrapperKind) (x : X) : StorageM X Wrapper := do
  let o ← getObject x
  if o.kind = k then pure o else Eff.raise .noObject

/-- `impl_pool::allocate()`. -/
def implAllocate : StorageM X ℕ := fun s =>
  match s.pool.allocate .null with
  | some (a, P) => (.ok a, { s with pool := P })
  | none => (.throw .deadSlot, s)

/-- `impl_pool::deallocate(elem)`. -/
def implDeallocate : Option ℕ → StorageM X Unit
  | none => pure ()
  | some a => fun s =>
      match s.pool.deallocate a with
      | some P => (.ok (), { s with pool := P })
      | none => (.throw .deadSlot, s)

/-- `*THIS`, read. -/
def deref : Option ℕ → StorageM X CciValue
  | none => Eff.raise .nullPointer
  | some a => fun s =>
      match s.pool.read a with
      | some v => (.ok v, s)
      | none => (.throw .deadSlot, s)

/-- `*THIS = v`. -/
def assignAt : Option ℕ → CciValue → StorageM X Unit
  | none, _ => Eff.raise .nullPointer
  | some a, v => fun s =>
      match s.pool.write a v with
      | some P => (.ok (), { s with pool := P })
      | none => (.throw .deadSlot, s)

/-! ### References -/

/-- `is_list()`, `is_map()`, `is_string()`: `THIS && THIS->Is...()`. -/
def holdsAt (k : RefKind) : Option ℕ → StorageM X Bool
  | none => pure false
  | some a => do
      let v ← deref (some a)
      pure (k.holds v)

/-- `is_null()`. -/
def isNullAt : Option ℕ → StorageM X Bool
  | none => pure true
  | some a => do
      let v ← deref (some a)
      pure v.isNull

/-- The pointer of a reference of class `k` to the value of an object: the object itself, or
`get_list()`, `get_map()`, `get_string()`, which check the type. -/
def reference (throws : Bool) (k : RefKind) (x : X) : StorageM X (Option ℕ) := do
  let o ← getObject x
  if k = .value ∨ o.kind.ref = k then pure o.pimpl
  else do
    let ok ← holdsAt k o.pimpl
    if ok then pure o.pimpl else valueAssertFailed throws .report k.query "invalid type access"

/-- `cci_value_ref::operator=(const cci_value_cref&)`, from the pointer `q` to the pointer `p`. -/
def refAssign (p q : Option ℕ) : StorageM X Unit := do
  let null ← isNullAt q
  if null then
    if p = none then pure () else assignAt p .null
  else if p = q then pure ()
  else if p = none then Eff.abort
  else do
    let v ← deref q
    assignAt p v

/-- The move of a value out of `q` by RapidJSON's assignment, after which `q` is set anew. -/
def moveContents (k : RefKind) (p q : Option ℕ) : StorageM X Unit := do
  let v ← deref q
  assignAt p v
  assignAt q k.emptied

/-! ### The wrapper functions -/

section

variable [DecidableEq X]

/-- `do_init()`. -/
def doInit (x : X) : StorageM X Unit := do
  let o ← getObject x
  if o.ownPimpl.isSome then Eff.abort
  else do
    let a ← implAllocate
    setObject x (some { o with pimpl := some a, ownPimpl := some a })
    if o.kind = .value then pure () else assignAt (some a) o.kind.ref.emptied

/-- `cci_value::init()`. -/
def init (x : X) : StorageM X Unit := do
  let o ← getObject x
  if o.pimpl = none then doInit x else pure ()

/-- What comes first in `swap(reference)`: only `cci_value` calls `init()`. -/
def initForSwap (k : WrapperKind) (x : X) : StorageM X Unit :=
  if k = .value then init x else pure ()

/-- `operator=(const_reference)` of the class of `x`, from the pointer `q`. -/
def assignFrom (k : WrapperKind) (x : X) (q : Option ℕ) : StorageM X Unit :=
  match k with
  | .value => do
      let null ← isNullAt q
      init x
      let o ← getObject x
      if null then assignAt o.pimpl .null else refAssign o.pimpl q
  | k => do
      let o ← getObject x
      let own ← holdsAt k.ref o.pimpl
      let other ← holdsAt k.ref q
      if own && other then refAssign o.pimpl q else Eff.abort

end

/-! ### Operations -/

/-- What a program does with the objects; `x` is the one that is made or assigned.  The constructors
and assignments from `&&` are there only where `CCI_HAS_CXX_RVALUE_REFS` is defined. -/
inductive Op (X : Type) where
  /-- The default constructor. -/
  | construct (k : WrapperKind) (x : X) : Op X
  /-- `cci_value(const T&)`, where `v` is the packed value. -/
  | constructValue (x : X) (v : CciValue) : Op X
  /-- The constructor from a `const_reference` to the value of `y`. -/
  | copyConstruct (k : WrapperKind) (x y : X) : Op X
  /-- `cci_value(cci_value&&)`. -/
  | moveConstruct (x y : X) : Op X
  /-- The constructors from `cci_value_list&&` and `cci_value_map&&`, where `k` is the class of
  `y`. -/
  | moveConstructFrom (k k' : WrapperKind) (x y : X) : Op X
  /-- `operator=(const_reference)`, and `operator=(const this_type&)`. -/
  | assign (k : WrapperKind) (x y : X) : Op X
  /-- `operator=(this_type&&)` of `cci_value`. -/
  | moveAssign (x y : X) : Op X
  /-- The other assignments from `cci_value_list&&` and `cci_value_map&&`. -/
  | moveAssignFrom (k k' : WrapperKind) (x y : X) : Op X
  /-- `swap(this_type&)`. -/
  | swap (k : WrapperKind) (x y : X) : Op X
  /-- `swap(reference)`. -/
  | swapRef (k : WrapperKind) (x y : X) : Op X
  /-- The `set` functions of `cci_value`, and `operator>>`. -/
  | set (x : X) (v : CciValue) : Op X
  /-- A change of the value through a reference of class `k`. -/
  | update (k : RefKind) (x : X) (f : CciValue → CciValue) : Op X
  /-- `cci_value x = y.move()`, for a reference of class `k` to the value of `y`. -/
  | moveOut (k : RefKind) (x y : X) : Op X
  /-- The destructor. -/
  | destroy (x : X) : Op X

namespace Op

/-- The operation, as it works on the pointers, where reports of `VALUE_ASSERT` throw or not. -/
def exec [DecidableEq X] (throws : Bool) : Op X → StorageM X Unit
  | construct k x => do
      newObject k x
      if k = .value then pure () else doInit x
  | constructValue x v => do
      newObject .value x
      doInit x
      let o ← getObject x
      assignAt o.pimpl v
  | copyConstruct k x y => do
      let q ← reference throws k.ref y
      newObject k x
      if k = .value then pure () else doInit x
      assignFrom k x q
  | moveConstruct x y => do
      let that ← getKind .value y
      newObject .value x
      setObject x (some { kind := .value, pimpl := that.pimpl, ownPimpl := that.ownPimpl })
      setObject y (some { kind := .value })
  | moveConstructFrom k k' x y => do
      let that ← getKind k' y
      if k' = .value ∨ k ≠ .value ∧ k ≠ k' then Eff.raise .noObject
      else do
        newObject k x
        doInit x
        let o ← getObject x
        moveContents k'.ref o.pimpl that.pimpl
  | assign k x y => do
      let _ ← getKind k x
      let q ← reference throws k.ref y
      assignFrom k x q
  | moveAssign x y => do
      let o ← getKind .value x
      let that ← getKind .value y
      if o.ownPimpl = that.ownPimpl then pure ()
      else do
        implDeallocate o.ownPimpl
        setObject x (some { o with pimpl := that.ownPimpl, ownPimpl := that.ownPimpl })
        setObject y (some { that with pimpl := none, ownPimpl := none })
  | moveAssignFrom k k' x y => do
      let o ← getKind k x
      let that ← getKind k' y
      if k' = .value ∨ k ≠ .value ∧ k ≠ k' then Eff.raise .noObject
      else if k = .value then do
        init x
        let o ← getObject x
        moveContents k'.ref o.pimpl that.pimpl
      else if o.ownPimpl = that.ownPimpl then pure ()
      else moveContents k'.ref o.pimpl that.pimpl
  | swap k x y => do
      let o ← getKind k x
      let that ← getKind k y
      setObject x (some { o with pimpl := that.pimpl, ownPimpl := that.ownPimpl })
      setObject y (some { that with pimpl := o.pimpl, ownPimpl := o.ownPimpl })
  | swapRef k x y => do
      let _ ← getKind k x
      let q ← reference throws k.ref y
      initForSwap k x
      let o ← getObject x
      if o.pimpl = none ∨ q = none then
        valueAssertFailed throws .report "pimpl_ && that.pimpl_" "swap with invalid value failed"
      else do
        let v ← deref o.pimpl
        let u ← deref q
        assignAt o.pimpl u
        assignAt q v
  | set x v => do
      let _ ← getKind .value x
      init x
      let o ← getObject x
      assignAt o.pimpl v
  | update k x f => do
      let p ← reference throws k x
      if p = none then Eff.abort
      else do
        let v ← deref p
        assignAt p (f v)
  | moveOut k x y => do
      let q ← reference throws k y
      newObject .value x
      doInit x
      let o ← getObject x
      moveContents k o.pimpl q
  | destroy x => do
      let o ← getObject x
      implDeallocate o.ownPimpl
      setObject x none

end Op

/-! ### Values without storage -/

/-- The objects alive, each with its class and the value it has been given, if any. -/
abbrev Env (X : Type) : Type := X → Option (WrapperKind × Option CciValue)

abbrev EnvM (X : Type) (α : Type) : Type := Eff Failure (Env X) α

namespace Env

def lookup (x : X) : EnvM X (WrapperKind × Option CciValue) := fun a =>
  match a x with
  | some o => (.ok o, a)
  | none => (.throw .noObject, a)

def lookupKind (k : WrapperKind) (x : X) : EnvM X (Option CciValue) := do
  let o ← lookup x
  if o.1 = k then pure o.2 else Eff.raise .noObject

def put [DecidableEq X] (x : X) (k : WrapperKind) (c : Option CciValue) : EnvM X Unit :=
  Eff.modify fun a => Function.update a x (some (k, c))

/-- An object that does not exist yet. -/
def fresh (x : X) : EnvM X Unit := fun a =>
  match a x with
  | some _ => (.throw .noObject, a)
  | none => (.ok (), a)

/-- The class and the value of an object, seen through a reference of class `k`. -/
def through (throws : Bool) (k : RefKind) (y : X) : EnvM X (WrapperKind × Option CciValue) := do
  let o ← lookup y
  if k = .value ∨ o.1.ref = k then pure o
  else if o.2.any k.holds then pure o
  else valueAssertFailed throws .report k.query "invalid type access"

end Env

namespace Op

open Env

/-- The operation on values: it changes the objects it names and no others. -/
def meaning [DecidableEq X] (throws : Bool) : Op X → EnvM X Unit
  | construct k x => do
      fresh x
      put x k (if k = .value then none else some k.ref.emptied)
  | constructValue x v => do
      fresh x
      put x .value (some v)
  | copyConstruct k x y => do
      let o ← through throws k.ref y
      fresh x
      if k = .value then put x .value (some (o.2.getD .null))
      else if o.2.any k.ref.holds then put x k o.2
      else Eff.abort
  | moveConstruct x y => do
      let c ← lookupKind .value y
      fresh x
      put x .value c
      put y .value none
  | moveConstructFrom k k' x y => do
      let c ← lookupKind k' y
      if k' = .value ∨ k ≠ .value ∧ k ≠ k' then Eff.raise .noObject
      else do
        fresh x
        put x k c
        put y k' (some k'.ref.emptied)
  | assign k x y => do
      let c ← lookupKind k x
      let o ← through throws k.ref y
      if k = .value then put x .value (some (o.2.getD .null))
      else if c.any k.ref.holds && o.2.any k.ref.holds then put x k o.2
      else Eff.abort
  | moveAssign x y => do
      let _ ← lookupKind .value x
      let c ← lookupKind .value y
      if x = y then pure ()
      else do
        put x .value c
        put y .value none
  | moveAssignFrom k k' x y => do
      let _ ← lookupKind k x
      let c ← lookupKind k' y
      if k' = .value ∨ k ≠ .value ∧ k ≠ k' then Eff.raise .noObject
      else if x = y then pure ()
      else do
        put x k c
        put y k' (some k'.ref.emptied)
  | swap k x y => do
      let c ← lookupKind k x
      let d ← lookupKind k y
      put x k d
      put y k c
  | swapRef k x y => do
      let c ← lookupKind k x
      let o ← through throws k.ref y
      put x k (some (c.getD .null))
      match o.2 with
      | none =>
          valueAssertFailed throws .report "pimpl_ && that.pimpl_" "swap with invalid value failed"
      | some u => do
          put x k (some u)
          put y o.1 (some (c.getD .null))
  | set x v => do
      let _ ← lookupKind .value x
      put x .value (some v)
  | update k x f => do
      let o ← through throws k x
      match o.2 with
      | none => Eff.abort
      | some v => put x o.1 (some (f v))
  | moveOut k x y => do
      let o ← through throws k y
      fresh x
      match o.2 with
      | none => Eff.raise .nullPointer
      | some v => do
          put x .value (some v)
          put y o.1 (some k.emptied)
  | destroy x => do
      let _ ← lookup x
      Eff.modify fun a => Function.update a x none

end Op

/-! ### How storage represents values -/

theorem getObject_of {m : Storage X} {x : X} {o : Wrapper} (ho : m.objects x = some o) :
    getObject x m = (.ok o, m) := by
  simp only [getObject, ho]

/-- The object owns the slot. -/
def Owns (m : Storage X) (x : X) (s : ℕ) : Prop := ∃ o, m.objects x = some o ∧ o.ownPimpl = some s

/-- The storage stands for the values in `a`: each owned slot has one owner, whose value it holds;
the pool has `n` slots. -/
structure Repr (m : Storage X) (a : Env X) (owned : Finset ℕ) (n : ℕ) : Prop where
  sound : m.pool.Sound owned
  own : ∀ s, s ∈ owned ↔ ∃ x, Owns m x s
  unique : ∀ x y s, Owns m x s → Owns m y s → x = y
  same : ∀ x o, m.objects x = some o → o.pimpl = o.ownPimpl
  env : ∀ x, a x = (m.objects x).map fun o => (o.kind, o.ownPimpl.bind m.pool.read)
  length : m.pool.slots.length = n

namespace Repr

variable {m : Storage X} {a : Env X} {owned : Finset ℕ} {n : ℕ}

section

variable (h : Repr m a owned n)

include h

theorem object_none {x : X} (hx : a x = none) : m.objects x = none := by
  have henv := h.env x
  rw [hx] at henv
  exact Option.map_eq_none_iff.1 henv.symm

/-- The object behind an entry. -/
theorem object {x : X} {k : WrapperKind} {c : Option CciValue} (hx : a x = some (k, c)) :
    ∃ p, m.objects x = some ⟨k, p, p⟩ ∧ p.bind m.pool.read = c := by
  have henv := h.env x
  rw [hx] at henv
  obtain ⟨o, ho, hpair⟩ := Option.map_eq_some_iff.1 henv.symm
  have hsame := h.same x o ho
  obtain ⟨k', p, q⟩ := o
  cases hsame
  cases hpair
  exact ⟨p, ho, rfl⟩

theorem slot {x : X} {k : WrapperKind} {v : CciValue} (hx : a x = some (k, some v)) :
    ∃ s, m.objects x = some ⟨k, some s, some s⟩ ∧ m.pool.read s = some v ∧ s ∈ owned := by
  obtain ⟨p, ho, hp⟩ := h.object hx
  cases p with
  | none => cases hp
  | some s => exact ⟨s, ho, hp, (h.own s).2 ⟨x, _, ho, rfl⟩⟩

theorem noSlot {x : X} {k : WrapperKind} (hx : a x = some (k, none)) :
    m.objects x = some ⟨k, none, none⟩ := by
  obtain ⟨p, ho, hp⟩ := h.object hx
  cases p with
  | none => exact ho
  | some s =>
    obtain ⟨v, hv⟩ := h.sound.read ((h.own s).2 ⟨x, _, ho, rfl⟩)
    rw [Option.bind_some, hv] at hp
    cases hp

theorem card_le : owned.card ≤ n := h.length ▸ h.sound.card_le

end

/-! ### Objects -/

/-- A change of the objects that keeps the pool and who owns what. -/
theorem repoint (h : Repr m a owned n) (σ : X ≃ X) {objects : X → Option Wrapper} {a' : Env X}
    (hown : ∀ x s, Owns ⟨m.pool, objects⟩ x s ↔ Owns m (σ x) s)
    (hsame : ∀ x o, objects x = some o → o.pimpl = o.ownPimpl)
    (henv : ∀ x, a' x = (objects x).map fun o => (o.kind, o.ownPimpl.bind m.pool.read)) :
    Repr ⟨m.pool, objects⟩ a' owned n where
  sound := h.sound
  own s := by
    rw [h.own]
    constructor
    · rintro ⟨x, hx⟩
      exact ⟨σ.symm x, (hown _ s).2 (by rwa [Equiv.apply_symm_apply])⟩
    · rintro ⟨x, hx⟩
      exact ⟨σ x, (hown x s).1 hx⟩
  unique x y s hx hy := σ.injective (h.unique _ _ s ((hown x s).1 hx) ((hown y s).1 hy))
  same := hsame
  env := henv
  length := h.length

variable [DecidableEq X]

/-- An object appears or disappears that owns no storage. -/
theorem setObject_bare (h : Repr m a owned n) {x : X} (hx : ∀ s, ¬Owns m x s)
    (k : Option WrapperKind) :
    Repr ⟨m.pool, Function.update m.objects x (k.map fun k => ⟨k, none, none⟩)⟩
      (Function.update a x (k.map fun k => (k, none))) owned n := by
  refine h.repoint (Equiv.refl X) (fun y s => ?_) (fun y o ho => ?_) fun y => ?_
  · by_cases hy : y = x
    · subst hy
      refine iff_of_false ?_ (hx s)
      rintro ⟨o, ho, hs⟩
      have ho' : (k.map fun k => (⟨k, none, none⟩ : Wrapper)) = some o := by
        simpa only [Function.update_self] using ho
      cases k with
      | none => cases ho'
      | some k =>
        cases ho'
        cases hs
    · simp only [Owns, Function.update_of_ne hy, Equiv.refl_apply]
  · by_cases hy : y = x
    · subst hy
      rw [Function.update_self] at ho
      cases k with
      | none => cases ho
      | some k =>
        cases ho
        rfl
    · rw [Function.update_of_ne hy] at ho
      exact h.same y o ho
  · by_cases hy : y = x
    · subst hy
      rw [Function.update_self, Function.update_self]
      cases k <;> rfl
    · rw [Function.update_of_ne hy, Function.update_of_ne hy]
      exact h.env y

/-- Two objects exchange their pointers. -/
theorem exchange (h : Repr m a owned n) {x y : X} {k k' : WrapperKind} {c d : Option CciValue}
    {p q : Option ℕ} (hx : a x = some (k, c)) (hy : a y = some (k', d))
    (ox : m.objects x = some ⟨k, p, p⟩) (oy : m.objects y = some ⟨k', q, q⟩) :
    Repr ⟨m.pool, Function.update (Function.update m.objects x (some ⟨k, q, q⟩)) y
        (some ⟨k', p, p⟩)⟩
      (Function.update (Function.update a x (some (k, d))) y (some (k', c))) owned n := by
  have hc : p.bind m.pool.read = c := by
    have henv := h.env x
    rw [hx, ox] at henv
    exact (Prod.mk.inj (Option.some.inj henv)).2.symm
  have hd : q.bind m.pool.read = d := by
    have henv := h.env y
    rw [hy, oy] at henv
    exact (Prod.mk.inj (Option.some.inj henv)).2.symm
  refine h.repoint (Equiv.swap x y) (fun z s => ?_) (fun z o ho => ?_) fun z => ?_
  · by_cases hzy : z = y
    · subst hzy
      simp only [Owns, Function.update_self, Equiv.swap_apply_right, ox, Option.some.injEq]
      constructor <;> rintro ⟨o, rfl, hs⟩ <;> exact ⟨_, rfl, hs⟩
    · by_cases hzx : z = x
      · subst hzx
        simp only [Owns, Function.update_of_ne hzy, Function.update_self, Equiv.swap_apply_left, oy,
          Option.some.injEq]
        constructor <;> rintro ⟨o, rfl, hs⟩ <;> exact ⟨_, rfl, hs⟩
      · simp only [Owns, Function.update_of_ne hzy, Function.update_of_ne hzx,
          Equiv.swap_apply_of_ne_of_ne hzx hzy]
  · by_cases hzy : z = y
    · subst hzy
      rw [Function.update_self] at ho
      cases ho
      rfl
    · rw [Function.update_of_ne hzy] at ho
      by_cases hzx : z = x
      · subst hzx
        rw [Function.update_self] at ho
        cases ho
        rfl
      · rw [Function.update_of_ne hzx] at ho
        exact h.same z o ho
  · by_cases hzy : z = y
    · subst hzy
      rw [Function.update_self, Function.update_self, ← hc]
      rfl
    · rw [Function.update_of_ne hzy, Function.update_of_ne hzy]
      by_cases hzx : z = x
      · subst hzx
        rw [Function.update_self, Function.update_self, ← hd]
        rfl
      · rw [Function.update_of_ne hzx, Function.update_of_ne hzx]
        exact h.env z

/-! ### Reading -/

omit [DecidableEq X]

section

variable (h : Repr m a owned n) {x : X} {k : WrapperKind}

include h

theorem deref_run {v : CciValue} (hx : a x = some (k, some v)) :
    ∃ p, m.objects x = some ⟨k, p, p⟩ ∧ deref p m = (.ok v, m) := by
  obtain ⟨s, ho, hread, -⟩ := h.slot hx
  exact ⟨some s, ho, by simp only [deref, hread]⟩

theorem isNullAt_run {c : Option CciValue} (hx : a x = some (k, c)) {p : Option ℕ}
    (ho : m.objects x = some ⟨k, p, p⟩) : isNullAt p m = (.ok (c.getD .null).isNull, m) := by
  cases c with
  | none =>
    cases (h.noSlot hx).symm.trans ho
    rfl
  | some v =>
    obtain ⟨s, ho', hread, -⟩ := h.slot hx
    cases ho'.symm.trans ho
    have hrun : deref (some s) m = (.ok v, m) := by simp only [deref, hread]
    rw [isNullAt, Eff.bind_run_ok hrun]
    rfl

theorem holdsAt_run {c : Option CciValue} (hx : a x = some (k, c)) {p : Option ℕ}
    (ho : m.objects x = some ⟨k, p, p⟩) (r : RefKind) : holdsAt r p m = (.ok (c.any r.holds), m) := by
  cases c with
  | none =>
    cases (h.noSlot hx).symm.trans ho
    rfl
  | some v =>
    obtain ⟨s, ho', hread, -⟩ := h.slot hx
    cases ho'.symm.trans ho
    have hrun : deref (some s) m = (.ok v, m) := by simp only [deref, hread]
    rw [holdsAt, Eff.bind_run_ok hrun]
    rfl

/-- An entry is found when its object is. -/
theorem getObject_run :
    (a x = none ∧ getObject x m = (.throw .noObject, m) ∧
      Env.lookup x a = (.throw .noObject, a)) ∨
    ∃ k c p, a x = some (k, c) ∧ m.objects x = some ⟨k, p, p⟩ ∧
      getObject x m = (.ok ⟨k, p, p⟩, m) ∧ Env.lookup x a = (.ok (k, c), a) := by
  cases hx : a x with
  | none =>
    refine .inl ⟨rfl, ?_, ?_⟩
    · simp only [getObject, h.object_none hx]
    · simp only [Env.lookup, hx]
  | some o =>
    obtain ⟨p, ho, -⟩ := h.object (k := o.1) (c := o.2) hx
    refine .inr ⟨o.1, o.2, p, rfl, ho, ?_, ?_⟩
    · simp only [getObject, ho]
    · simp only [Env.lookup, hx]

theorem getKind_run (k : WrapperKind) :
    (getKind k x m = (.throw .noObject, m) ∧ Env.lookupKind k x a = (.throw .noObject, a)) ∨
    ∃ c p, a x = some (k, c) ∧ m.objects x = some ⟨k, p, p⟩ ∧
      getKind k x m = (.ok ⟨k, p, p⟩, m) ∧ Env.lookupKind k x a = (.ok c, a) := by
  rcases h.getObject_run (x := x) with ⟨-, hrun, hrun'⟩ | ⟨k', c, p, hx, ho, hrun, hrun'⟩
  · exact .inl ⟨Eff.bind_run_throw hrun _, Eff.bind_run_throw hrun' _⟩
  · rw [getKind, Env.lookupKind, Eff.bind_run_ok hrun, Eff.bind_run_ok hrun']
    by_cases hk : k' = k
    · subst hk
      exact .inr ⟨c, p, hx, ho, by rw [if_pos rfl]; rfl, by rw [if_pos rfl]; rfl⟩
    · exact .inl ⟨by rw [if_neg hk]; rfl, by rw [if_neg hk]; rfl⟩

theorem reference_run (throws : Bool) (r : RefKind) :
    (∃ e, reference throws r x m = (.throw e, m) ∧ Env.through throws r x a = (.throw e, a)) ∨
    (reference throws r x m = (.abort, m) ∧ Env.through throws r x a = (.abort, a)) ∨
    ∃ k c p, a x = some (k, c) ∧ m.objects x = some ⟨k, p, p⟩ ∧
      reference throws r x m = (.ok p, m) ∧ Env.through throws r x a = (.ok (k, c), a) := by
  rcases h.getObject_run (x := x) with ⟨-, hrun, hrun'⟩ | ⟨k, c, p, hx, ho, hrun, hrun'⟩
  · exact .inl ⟨_, Eff.bind_run_throw hrun _, Eff.bind_run_throw hrun' _⟩
  · rw [reference, Env.through, Eff.bind_run_ok hrun, Eff.bind_run_ok hrun']
    by_cases hr : r = .value ∨ k.ref = r
    · exact .inr (.inr ⟨k, c, p, hx, ho, by rw [if_pos hr]; rfl, by rw [if_pos hr]; rfl⟩)
    · rw [if_neg hr, if_neg hr, Eff.bind_run_ok (h.holdsAt_run hx ho r)]
      cases hc : c.any r.holds with
      | true => exact .inr (.inr ⟨k, c, p, hx, ho, rfl, rfl⟩)
      | false =>
        cases throws with
        | true => exact .inl ⟨_, rfl, rfl⟩
        | false => exact .inr (.inl ⟨rfl, rfl⟩)

end

/-! ### Writing -/

theorem not_owns_of_none (h : Repr m a owned n) {x : X} (hx : a x = none) (s : ℕ) :
    ¬Owns m x s := by
  rintro ⟨o, ho, -⟩
  cases (h.object_none hx).symm.trans ho

theorem not_owns_of_noSlot (h : Repr m a owned n) {x : X} {k : WrapperKind}
    (hx : a x = some (k, none)) (s : ℕ) : ¬Owns m x s := by
  rintro ⟨o, ho, hs⟩
  cases (h.noSlot hx).symm.trans ho
  cases hs

/-- Only its owner looks at a slot. -/
theorem bind_read_of_ne (h : Repr m a owned n) {x y : X} {s : ℕ} (hx : Owns m x s) (hy : y ≠ x)
    {o : Wrapper} (ho : m.objects y = some o) {P : Pool CciValue}
    (hread : ∀ b ∈ owned, b ≠ s → P.read b = m.pool.read b) :
    o.ownPimpl.bind P.read = o.ownPimpl.bind m.pool.read := by
  cases hb : o.ownPimpl with
  | none => rfl
  | some b =>
    have hown : Owns m y b := ⟨o, ho, hb⟩
    have hne : b ≠ s := fun heq => hy (h.unique y x b hown (heq ▸ hx))
    exact hread b ((h.own b).2 ⟨y, hown⟩) hne

variable [DecidableEq X]

theorem newObject_run (h : Repr m a owned n) {x : X} (hx : a x = none) (k : WrapperKind) :
    ∃ m₁, newObject k x m = (.ok (), m₁) ∧ m₁.objects = Function.update m.objects x (some ⟨k, none, none⟩) ∧
      Repr m₁ (Function.update a x (some (k, none))) owned n := by
  refine ⟨_, ?_, rfl, h.setObject_bare (h.not_owns_of_none hx) (some k)⟩
  simp only [newObject, h.object_none hx]
  rfl

theorem assignAt_run (h : Repr m a owned n) {x : X} {k : WrapperKind} {c : CciValue}
    (hx : a x = some (k, some c)) {p : Option ℕ} (ho : m.objects x = some ⟨k, p, p⟩) (v : CciValue) :
    ∃ m₁, assignAt p v m = (.ok (), m₁) ∧ m₁.objects = m.objects ∧
      Repr m₁ (Function.update a x (some (k, some v))) owned n := by
  obtain ⟨s, ho', -, hs⟩ := h.slot hx
  cases ho'.symm.trans ho
  obtain ⟨P, hwrite, hsound, hread, hothers, hlen⟩ := h.sound.write hs v
  refine ⟨{ m with pool := P }, by simp only [assignAt, hwrite], rfl, hsound, h.own, h.unique, h.same,
    fun y => ?_, hlen.trans h.length⟩
  by_cases hy : y = x
  · subst hy
    show _ = (m.objects y).map _
    rw [Function.update_self, ho, Option.map_some, Option.bind_some, hread]
  · rw [Function.update_of_ne hy, h.env y]
    refine Option.map_congr fun o hoy => ?_
    rw [h.bind_read_of_ne ⟨_, ho, rfl⟩ hy (Option.mem_def.1 hoy) hothers]

theorem doInit_run (h : Repr m a owned n) {x : X} {k : WrapperKind} (hx : a x = some (k, none)) :
    ∃ m₁ s, doInit x m = (.ok (), m₁) ∧ s ∉ owned ∧
      m₁.objects = Function.update m.objects x (some ⟨k, some s, some s⟩) ∧
      Repr m₁ (Function.update a x (some (k, some k.ref.emptied))) (insert s owned)
        (max n (owned.card + 1)) := by
  have ho := h.noSlot hx
  obtain ⟨s, P, halloc, hnew, hsound, hread, hothers, hlen⟩ := h.sound.allocate CciValue.null
  let m₁ : Storage X := ⟨P, Function.update m.objects x (some ⟨k, some s, some s⟩)⟩
  have hself : ∀ t, Owns m₁ x t ↔ s = t := fun t => by
    simp [Owns, m₁]
  have hother : ∀ y, y ≠ x → ∀ t, Owns m₁ y t ↔ Owns m y t := fun y hy t => by
    simp only [Owns, m₁, Function.update_of_ne hy]
  have hrepr : Repr m₁ (Function.update a x (some (k, some .null))) (insert s owned)
      (max n (owned.card + 1)) := by
    refine ⟨hsound, fun t => ?_, fun y z t hy hz => ?_, fun y o hyo => ?_, fun y => ?_, ?_⟩
    · rw [Finset.mem_insert, h.own]
      constructor
      · rintro (rfl | ⟨y, hy⟩)
        · exact ⟨x, (hself _).2 rfl⟩
        · have hyx : y ≠ x := fun heq => h.not_owns_of_noSlot hx t (heq ▸ hy)
          exact ⟨y, (hother y hyx t).2 hy⟩
      · rintro ⟨y, hy⟩
        by_cases hyx : y = x
        · subst hyx
          exact .inl ((hself t).1 hy).symm
        · exact .inr ⟨y, (hother y hyx t).1 hy⟩
    · have hfresh : ∀ u, u ≠ x → ¬Owns m u s := fun u _ hu => hnew ((h.own s).2 ⟨u, hu⟩)
      by_cases hyx : y = x
      · by_cases hzx : z = x
        · rw [hyx, hzx]
        · subst hyx
          obtain rfl := (hself t).1 hy
          exact absurd ((hother z hzx s).1 hz) (hfresh z hzx)
      · by_cases hzx : z = x
        · subst hzx
          obtain rfl := (hself t).1 hz
          exact absurd ((hother y hyx s).1 hy) (hfresh y hyx)
        · exact h.unique y z t ((hother y hyx t).1 hy) ((hother z hzx t).1 hz)
    · by_cases hyx : y = x
      · subst hyx
        rw [show m₁.objects y = some ⟨k, some s, some s⟩ from Function.update_self _ _ _] at hyo
        cases hyo
        rfl
      · rw [show m₁.objects y = m.objects y from Function.update_of_ne hyx _ _] at hyo
        exact h.same y o hyo
    · by_cases hyx : y = x
      · subst hyx
        rw [Function.update_self, show m₁.objects y = some ⟨k, some s, some s⟩ from
          Function.update_self _ _ _, Option.map_some, Option.bind_some, hread]
      · rw [Function.update_of_ne hyx, h.env y, show m₁.objects y = m.objects y from
          Function.update_of_ne hyx _ _]
        refine Option.map_congr fun o hoy => ?_
        have hsame : o.ownPimpl.bind P.read = o.ownPimpl.bind m.pool.read := by
          cases hb : o.ownPimpl with
          | none => rfl
          | some b => exact hothers b ((h.own b).2 ⟨y, o, Option.mem_def.1 hoy, hb⟩)
        rw [← hsame]
    · rw [← h.length]
      exact hlen
  have hget : getObject x m = (.ok ⟨k, none, none⟩, m) := by simp only [getObject, ho]
  have hallocate : implAllocate m = (.ok s, { m with pool := P }) := by
    simp only [implAllocate, halloc]
  have hrun : doInit x m = (if k = .value then (pure () : StorageM X Unit)
      else assignAt (some s) k.ref.emptied) m₁ := by
    rw [doInit, Eff.bind_run_ok hget, if_neg (by simp), Eff.bind_run_ok hallocate]
    rfl
  by_cases hk : k = .value
  · subst hk
    rw [if_pos rfl] at hrun
    exact ⟨m₁, s, hrun, hnew, rfl, hrepr⟩
  · rw [if_neg hk] at hrun
    obtain ⟨m₂, hassign, hobjects, hfinal⟩ := hrepr.assignAt_run (Function.update_self _ _ _)
      (Function.update_self _ _ _) k.ref.emptied
    rw [Function.update_idem] at hfinal
    exact ⟨m₂, s, hrun.trans hassign, hnew, hobjects, hfinal⟩

/-- The storage of an object goes back to the pool. -/
theorem release_run (h : Repr m a owned n) {x : X} {k : WrapperKind} {c : Option CciValue}
    (hx : a x = some (k, c)) {p : Option ℕ} (ho : m.objects x = some ⟨k, p, p⟩) :
    ∃ P owned', implDeallocate p m = (.ok (), ({ m with pool := P } : Storage X)) ∧
      Repr ⟨P, Function.update m.objects x (some ⟨k, none, none⟩)⟩
        (Function.update a x (some (k, none))) owned' n := by
  cases p with
  | none =>
    refine ⟨m.pool, owned, rfl, h.setObject_bare (k := some k) fun s => ?_⟩
    rintro ⟨o, ho', hs⟩
    cases ho.symm.trans ho'
    cases hs
  | some s =>
    have hxs : Owns m x s := ⟨_, ho, rfl⟩
    have hs : s ∈ owned := (h.own s).2 ⟨x, hxs⟩
    obtain ⟨P, hdealloc, hsound, hread, hlen⟩ := h.sound.deallocate hs
    refine ⟨P, owned.erase s, by simp only [implDeallocate, hdealloc], hsound, fun t => ?_,
      fun y z t hy hz => ?_, fun y o hyo => ?_, fun y => ?_, hlen.trans h.length⟩
    · have hiff : ∀ y, Owns ⟨P, Function.update m.objects x (some ⟨k, none, none⟩)⟩ y t ↔
          y ≠ x ∧ Owns m y t := by
        intro y
        by_cases hyx : y = x
        · subst hyx
          simp [Owns]
        · simp [Owns, hyx]
      rw [Finset.mem_erase, h.own]
      constructor
      · rintro ⟨hne, y, hy⟩
        refine ⟨y, (hiff y).2 ⟨fun heq => hne ?_, hy⟩⟩
        subst heq
        obtain ⟨o, ho', ht⟩ := hy
        cases ho.symm.trans ho'
        cases ht
        rfl
      · rintro ⟨y, hy⟩
        obtain ⟨hne, hy'⟩ := (hiff y).1 hy
        exact ⟨fun heq => hne (h.unique y x t hy' (heq ▸ hxs)), y, hy'⟩
    · have hback : ∀ u, Owns ⟨P, Function.update m.objects x (some ⟨k, none, none⟩)⟩ u t →
          Owns m u t := by
        rintro u ⟨o, hu, ht⟩
        by_cases hux : u = x
        · subst hux
          simp only [Function.update_self, Option.some.injEq] at hu
          subst hu
          cases ht
        · simp only [Function.update_of_ne hux] at hu
          exact ⟨o, hu, ht⟩
      exact h.unique y z t (hback y hy) (hback z hz)
    · by_cases hyx : y = x
      · subst hyx
        simp only [Function.update_self, Option.some.injEq] at hyo
        subst hyo
        rfl
      · simp only [Function.update_of_ne hyx] at hyo
        exact h.same y o hyo
    · by_cases hyx : y = x
      · subst hyx
        simp only [Function.update_self, Option.map_some, Option.bind_none]
      · show _ = (Function.update m.objects x (some ⟨k, none, none⟩) y).map _
        rw [Function.update_of_ne hyx, Function.update_of_ne hyx, h.env y]
        refine Option.map_congr fun o hoy => ?_
        rw [h.bind_read_of_ne hxs hyx (Option.mem_def.1 hoy) fun b hb hbs =>
          hread b (Finset.mem_erase.2 ⟨hbs, hb⟩)]

/-- `init()` gives a `cci_value` storage. -/
theorem init_run (h : Repr m a owned n) {x : X} {k : WrapperKind} {c : Option CciValue}
    (hx : a x = some (k, c)) (hk : k.ref.emptied = .null) :
    ∃ m₁ owned₁, init x m = (.ok (), m₁) ∧
      (∀ y, y ≠ x → m₁.objects y = m.objects y) ∧
      Repr m₁ (Function.update a x (some (k, some (c.getD .null)))) owned₁ (max n owned₁.card) := by
  cases c with
  | none =>
    have hget : getObject x m = (.ok ⟨k, none, none⟩, m) := by simp only [getObject, h.noSlot hx]
    obtain ⟨m₁, s, hrun, hnew, hobjects, hrepr⟩ := h.doInit_run hx
    rw [hk] at hrepr
    refine ⟨m₁, insert s owned, ?_, fun y hy => ?_, ?_⟩
    · rw [init, Eff.bind_run_ok hget, if_pos rfl]
      exact hrun
    · rw [hobjects, Function.update_of_ne hy]
    · rw [Finset.card_insert_of_notMem hnew]
      exact hrepr
  | some v =>
    obtain ⟨s, ho, -, -⟩ := h.slot hx
    have hget : getObject x m = (.ok ⟨k, some s, some s⟩, m) := by simp only [getObject, ho]
    refine ⟨m, owned, ?_, fun _ _ => rfl, ?_⟩
    · rw [init, Eff.bind_run_ok hget, if_neg (by simp)]
      rfl
    · rw [Nat.max_eq_left h.card_le, Option.getD_some, ← hx, Function.update_eq_self]
      exact h

end Repr

end ValueStorage

end Cci
