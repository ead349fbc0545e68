import Cci.Cfg.ParamUntyped
import Cci.Core.CallbackHeap
import Cci.Lib.EraseLoop

/-!
# Who holds the callbacks of a parameter

A program constructs and copies `cci_callback` objects, makes handles of them, copies, assigns and
recovers handles, and registers and unregisters callbacks at one parameter.

* `CallbackSystem` — the callback objects in memory, the variables that hold them, the four lists;
  `CallbackCommand` and `exec`, what a program does to them;
* `CallbackClient` — the same without a memory, where a handle is what it denotes;
* `Related.exec` — the memory follows the client, whatever addresses are given again;
* `unregister_exact` — what is unregistered.
-/

namespace Cci

open RefCount Bindings

/-! ### The program -/

/-- A variable of the program: a `cci_callback`, or a handle, typed or untyped. -/
inductive CallbackHolder where
  | callback (v : ℕ)
  | handle (h : ℕ)
deriving DecidableEq, Repr

/-- Both are of one class. -/
def CallbackHolder.sameClass : CallbackHolder → CallbackHolder → Bool
  | .callback _, .callback _ => true
  | .handle _, .handle _ => true
  | _, _ => false

/-- What a program does.  Constructed objects are placed at `a` and `b`.  `operator=` of a
`cci_callback` is a copy or a move into its parameter, a `swap` and the end of the parameter;
that of a handle is a `copyHandle`, a `swap` and the end of the copy. -/
inductive CallbackCommand where
  /-- `cci_callback(C c)`: from a functor. -/
  | construct (v : ℕ) (s : Signature) (a : ℕ)
  /-- `cci_callback(const cci_callback&)`. -/
  | copyCallback (v w a b : ℕ)
  /-- `cci_callback(cci_callback&&)`, where `CCI_HAS_CXX_RVALUE_REFS` is defined. -/
  | moveCallback (v w : ℕ)
  /-- `cci_callback(const cci_callback<T>&)`: from a generalized callback. -/
  | generalise (v w : ℕ) (s : Signature) (a : ℕ)
  /-- `cci_callback_untyped_handle()`. -/
  | emptyHandle (h : ℕ)
  /-- `cci_callback_untyped_handle(const cci_callback&)`, or a copy of a handle. -/
  | copyHandle (h : ℕ) (x : CallbackHolder)
  /-- `cci_callback_typed_handle(const cci_callback_untyped_handle&)`. -/
  | typedHandle (h g : ℕ) (s : Signature) (a : ℕ)
  /-- `swap`. -/
  | swap (x y : CallbackHolder)
  /-- `clear()`. -/
  | clear (h : ℕ)
  /-- The destructor. -/
  | destroy (x : CallbackHolder)
  /-- `r = register_<kind>_callback(h, orig)`, for a new handle `r`. -/
  | register (r : ℕ) (k : CallbackKind) (h : ℕ) (orig : CciOriginator)
  /-- `unregister_<kind>_callback(h, orig)`. -/
  | unregister (k : CallbackKind) (h : ℕ) (orig : CciOriginator)

/-- `r = g` for handles; the copy is named `c`. -/
def assignHandle (c r g : ℕ) : List CallbackCommand :=
  [.copyHandle c (.handle g), .swap (.handle c) (.handle r), .destroy (.handle c)]

/-! ### In memory -/

/-- A `callback_obj` with the pointer of its handle. -/
structure CallbackEntry where
  callback : Option ℕ
  originator : CciOriginator
deriving DecidableEq, Repr

/-- The callback objects, the variables and the lists of one parameter. -/
structure CallbackSystem where
  memory : CallbackMemory := ∅
  /-- How many `callback_impl` objects were constructed. -/
  nextId : ℕ := 0
  holders : AList fun _ : CallbackHolder => Option ℕ := ∅
  vec : CallbackKind → List CallbackEntry := fun _ => []

namespace CallbackSystem

/-- `m_cb` of a variable. -/
def mCb (s : CallbackSystem) (x : CallbackHolder) : Option ℕ := (s.holders.lookup x).getD none

def hold (s : CallbackSystem) (x : CallbackHolder) (p : Option ℕ) : CallbackSystem :=
  { s with holders := s.holders.insert x p }

/-- `register_<kind>_callback(cb, orig)`: the entry and the returned handle are copies of `cb`. -/
def registerCallback (r : ℕ) (k : CallbackKind) (cb : Option ℕ) (orig : CciOriginator)
    (s : CallbackSystem) : CallbackSystem :=
  let s' := { s with
    memory := acquirePtr cb (acquirePtr cb s.memory)
    vec := Function.update s.vec k (s.vec k ++ [CallbackEntry.mk cb orig]) }
  s'.hold (.handle r) cb

/-- `it->callback == cb && it->originator == orig`. -/
def matchesEntry (m : CallbackMemory) (cb : Option ℕ) (orig : CciOriginator) (e : CallbackEntry) :
    Bool := getPtr e.callback m == getPtr cb m && e.originator == orig

/-- `unregister_<kind>_callback(cb, orig)`. -/
def unregisterCallback (k : CallbackKind) (cb : Option ℕ) (orig : CciOriginator)
    (s : CallbackSystem) : Bool × CallbackSystem :=
  match (s.vec k).find? (matchesEntry s.memory cb orig) with
  | some e => (true, { s with
      memory := releasePtr e.callback s.memory
      vec := Function.update s.vec k ((s.vec k).eraseP (matchesEntry s.memory cb orig)) })
  | none => (false, s)

/-- The state after a command. -/
def exec (s : CallbackSystem) : CallbackCommand → CallbackSystem
  | .construct v sig a =>
    { s with memory := alloc s.memory a (.callbackImpl s.nextId sig), nextId := s.nextId + 1 }.hold
      (.callback v) (some a)
  | .copyCallback v w a b =>
    match s.mCb (.callback w) with
    | some c =>
      { s with memory := cloneObject s.nextId a b c s.memory, nextId := s.nextId + 1 }.hold
        (.callback v) (some a)
    | none => s.hold (.callback v) none
  | .moveCallback v w => (s.hold (.callback w) none).hold (.callback v) (s.mCb (.callback w))
  | .generalise v w sig a =>
    match s.mCb (.callback w) with
    | some f => { s with memory := newAdapt sig a f s.memory }.hold (.callback v) (some a)
    | none => s
  | .emptyHandle h => s.hold (.handle h) none
  | .copyHandle h x => { s with memory := acquirePtr (s.mCb x) s.memory }.hold (.handle h) (s.mCb x)
  | .typedHandle h g sig a =>
    let r := typedHandlePtr sig a (s.mCb (.handle g)) s.memory
    { s with memory := r.2 }.hold (.handle h) r.1
  | .swap x y => (s.hold x (s.mCb y)).hold y (s.mCb x)
  | .clear h =>
    { s with memory := releasePtr (s.mCb (.handle h)) s.memory }.hold (.handle h) none
  | .destroy x =>
    { s with memory := releasePtr (s.mCb x) s.memory, holders := s.holders.erase x }
  | .register r k h orig => s.registerCallback r k (s.mCb (.handle h)) orig
  | .unregister k h orig => (s.unregisterCallback k (s.mCb (.handle h)) orig).2

/-- The command is one a program can issue: what it constructs is new and placed where nothing is,
what it uses exists and has the class that is asked for, and only a `cci_callback` of the
generalized signature that was not moved from is generalized. -/
def Allowed (s : CallbackSystem) : CallbackCommand → Prop
  | .construct v _ a => .callback v ∉ s.holders ∧ a ∉ s.memory
  | .copyCallback v w a b =>
    .callback v ∉ s.holders ∧ .callback w ∈ s.holders ∧ a ∉ s.memory ∧ b ∉ s.memory ∧ a ≠ b
  | .moveCallback v w => .callback v ∉ s.holders ∧ .callback w ∈ s.holders
  | .generalise v w sig a =>
    .callback v ∉ s.holders ∧ .callback w ∈ s.holders ∧ a ∉ s.memory ∧
      ∃ f t, s.mCb (.callback w) = some f ∧ sigAt s.memory f = some t ∧
        sig.arg.genericType = some t.arg ∧ sig.result = .void ∧ t.result = .void
  | .emptyHandle h => .handle h ∉ s.holders
  | .copyHandle h x => .handle h ∉ s.holders ∧ x ∈ s.holders
  | .typedHandle h g _ a => .handle h ∉ s.holders ∧ .handle g ∈ s.holders ∧ a ∉ s.memory
  | .swap x y => x ∈ s.holders ∧ y ∈ s.holders ∧ x.sameClass y = true
  | .clear h => .handle h ∈ s.holders
  | .destroy x => x ∈ s.holders
  | .register r _ h _ => .handle r ∉ s.holders ∧ .handle h ∈ s.holders
  | .unregister _ h _ => .handle h ∈ s.holders

end CallbackSystem

/-! ### Without a memory -/

/-- What the variables denote, beside the parameter. -/
structure CallbackClient (T : Type) where
  param : CciParam T
  nextId : ℕ := 0
  denotes : CallbackHolder → CallbackHandle := fun _ => none

namespace CallbackClient

variable {T : Type}

def set (t : CallbackClient T) (x : CallbackHolder) (v : CallbackHandle) : CallbackClient T :=
  { t with denotes := Function.update t.denotes x v }

/-- What a command does to it: a copy of a handle denotes the same callback, a copy of a callback
is a new one. -/
def exec (t : CallbackClient T) : CallbackCommand → CallbackClient T
  | .construct v sig _ =>
    { t with nextId := t.nextId + 1 }.set (.callback v) (some (.impl ⟨t.nextId, sig⟩))
  | .copyCallback v w _ _ =>
    match t.denotes (.callback w) with
    | some held => { t with nextId := t.nextId + 1 }.set (.callback v) (some (held.clone t.nextId))
    | none => t.set (.callback v) none
  | .moveCallback v w => (t.set (.callback w) none).set (.callback v) (t.denotes (.callback w))
  | .generalise v w sig _ =>
    t.set (.callback v) ((t.denotes (.callback w)).map fun held => .adapt held.get sig)
  | .emptyHandle h => t.set (.handle h) none
  | .copyHandle h x => t.set (.handle h) (t.denotes x)
  | .typedHandle h g sig _ => t.set (.handle h) (cciCallbackTypedHandle sig (t.denotes (.handle g)))
  | .swap x y => (t.set x (t.denotes y)).set y (t.denotes x)
  | .clear h => t.set (.handle h) none
  | .destroy _ => t
  | .register r k h orig =>
    let (cb, q) := CciParamUntyped.registerCallback k (t.denotes (.handle h)) orig t.param
    { t with param := q }.set (.handle r) cb
  | .unregister k h orig =>
    { t with param := (CciParamUntyped.unregisterCallback k (t.denotes (.handle h)) orig t.param).2 }

end CallbackClient

/-! ### The two together -/

variable {T : Type}

/-- The entries of the lists: their pointers, and what was registered. -/
abbrev EntryPairs := CallbackKind → List (Option ℕ × CallbackObj)

/-- The pointers of one list. -/
def listed (l : List (Option ℕ × CallbackObj)) : Multiset (Option ℕ × CallbackHandle) :=
  ↑(l.map fun x => (x.1, x.2.callback))

/-- All pointers of the program, with what they should lead to; `L` are those lost. -/
def total (E : EntryPairs) (m : AList fun _ : CallbackHolder => Option ℕ)
    (f : CallbackHolder → CallbackHandle) (L : Multiset (Option ℕ × CallbackHandle)) :
    Multiset (Option ℕ × CallbackHandle) := ∑ k, listed (E k) + readings m f + L

/-- The pointers of the system lead to what the client says. -/
structure Related (s : CallbackSystem) (t : CallbackClient T) (E : EntryPairs)
    (L : Multiset (Option ℕ × CallbackHandle)) : Prop where
  vec : ∀ k, s.vec k = (E k).map fun x => CallbackEntry.mk x.1 x.2.originator
  param : ∀ k, t.param.vec k = (E k).map Prod.snd
  nextId : t.nextId = s.nextId
  sound : Sound s.memory s.nextId (total E s.holders t.denotes L)

section

variable {E : EntryPairs} {m : AList fun _ : CallbackHolder => Option ℕ}
  {f : CallbackHolder → CallbackHandle} {L : Multiset (Option ℕ × CallbackHandle)}
  {x : CallbackHolder} {p : Option ℕ}

theorem total_insert_new (hx : x ∉ m) (p : Option ℕ) (v : CallbackHandle) :
    total E (m.insert x p) (Function.update f x v) L = (p, v) ::ₘ total E m f L := by
  rw [total, readings_insert_new hx, Multiset.add_cons, Multiset.cons_add, total]

theorem total_insert (p : Option ℕ) (v : CallbackHandle) :
    total E (m.insert x p) (Function.update f x v) L = (p, v) ::ₘ total E (m.erase x) f L := by
  rw [total, readings_insert, Multiset.add_cons, Multiset.cons_add, total]

theorem total_erase (hx : m.lookup x = some p) :
    total E m f L = (p, f x) ::ₘ total E (m.erase x) f L := by
  rw [total, readings_erase hx, Multiset.add_cons, Multiset.cons_add, total]

/-- One list apart from the others. -/
theorem sum_listed_update (k : CallbackKind) (l : List (Option ℕ × CallbackObj)) :
    ∑ k', listed (Function.update E k l k') =
      listed l + ∑ k' ∈ Finset.univ.erase k, listed (E k') := by
  rw [← Finset.add_sum_erase _ _ (Finset.mem_univ k), Function.update_self]
  refine congrArg _ (Finset.sum_congr rfl fun k' hk' => ?_)
  rw [Function.update_of_ne (Finset.mem_erase.1 hk').1]

/-- A list that loses or gains an entry. -/
theorem total_update {k : CallbackKind} {l l' : List (Option ℕ × CallbackObj)}
    {y : Option ℕ × CallbackObj} (hl : l.Perm (y :: l')) :
    total (Function.update E k l) m f L =
      (y.1, y.2.callback) ::ₘ total (Function.update E k l') m f L := by
  have hlisted : listed l = (y.1, y.2.callback) ::ₘ listed l' := by
    rw [listed, listed, Multiset.cons_coe]
    exact Multiset.coe_eq_coe.2 (hl.map fun x => (x.1, x.2.callback))
  rw [total, total, sum_listed_update, sum_listed_update, hlisted]
  simp only [Multiset.cons_add]

end

/-! ### Commands keep them together -/

namespace CallbackSystem

theorem lookup_of_mem {s : CallbackSystem} {x : CallbackHolder} (hx : x ∈ s.holders) :
    s.holders.lookup x = some (s.mCb x) := by
  obtain ⟨p, hp⟩ := Option.isSome_iff_exists.1 (AList.lookup_isSome.2 hx)
  rw [mCb, hp]
  rfl

end CallbackSystem

/-- What a command leaves without a holder. -/
def CallbackClient.lost (t : CallbackClient T) :
    CallbackCommand → Multiset (Option ℕ × CallbackHandle)
  | .copyCallback _ w _ b =>
    match t.denotes (.callback w) with
    | some held => held.lost t.nextId b
    | none => 0
  | _ => 0

namespace Related

open CallbackSystem

variable {s : CallbackSystem} {t : CallbackClient T} {E : EntryPairs}
  {L : Multiset (Option ℕ × CallbackHandle)}

/-- The pointer of a variable leads to what it denotes. -/
theorem sees (h : Related s t E L) {x : CallbackHolder} (hx : x ∈ s.holders) :
    Sees s.memory (s.mCb x) (t.denotes x) := by
  refine h.sound.sees (s.mCb x, t.denotes x) ?_
  rw [total, Multiset.mem_add, Multiset.mem_add]
  exact .inl (.inr (mem_readings (lookup_of_mem hx)))

/-- So does that of an entry. -/
theorem sees_entry (h : Related s t E L) {k : CallbackKind} {y : Option ℕ × CallbackObj}
    (hy : y ∈ E k) : Sees s.memory y.1 y.2.callback := by
  refine h.sound.sees (y.1, y.2.callback) ?_
  rw [total, Multiset.mem_add, Multiset.mem_add]
  refine .inl (.inl (Multiset.mem_sum.2 ⟨k, Finset.mem_univ k, ?_⟩))
  exact List.mem_map.2 ⟨y, hy, rfl⟩

theorem construct (h : Related s t E L) {v : ℕ} {sig : Signature} {a : ℕ}
    (hc : s.Allowed (.construct v sig a)) :
    Related (s.exec (.construct v sig a)) (t.exec (.construct v sig a)) E L := by
  obtain ⟨hv, ha⟩ := hc
  refine ⟨h.vec, h.param, congrArg (· + 1) h.nextId, ?_⟩
  show Sound (alloc s.memory a (.callbackImpl s.nextId sig)) (s.nextId + 1)
    (total E (s.holders.insert _ (some a))
      (Function.update t.denotes (.callback v) (some (.impl ⟨t.nextId, sig⟩))) L)
  rw [total_insert_new hv, h.nextId]
  exact h.sound.newImpl ha sig

/-- A copy of a callback is another callback. -/
theorem copyCallback (h : Related s t E L) {v w a b : ℕ}
    (hc : s.Allowed (.copyCallback v w a b)) :
    Related (s.exec (.copyCallback v w a b)) (t.exec (.copyCallback v w a b)) E
      (t.lost (.copyCallback v w a b) + L) := by
  obtain ⟨hv, hw, ha, hb, hab⟩ := hc
  have hsees := h.sees hw
  rw [CallbackSystem.exec, CallbackClient.exec, CallbackClient.lost]
  cases hp : s.mCb (.callback w) with
  | none =>
    rw [hp] at hsees
    rw [hsees.eq_none]
    refine ⟨h.vec, h.param, h.nextId, ?_⟩
    show Sound s.memory s.nextId (total E (s.holders.insert _ none)
      (Function.update t.denotes (.callback v) none) (0 + L))
    rw [total_insert_new hv, zero_add]
    exact h.sound.null
  | some c =>
    rw [hp] at hsees
    obtain ⟨held, hd⟩ := hsees.exists_held
    rw [hd] at hsees ⊢
    refine ⟨h.vec, h.param, congrArg (· + 1) h.nextId, ?_⟩
    show Sound (cloneObject s.nextId a b c s.memory) (s.nextId + 1)
      (total E (s.holders.insert _ (some a))
        (Function.update t.denotes (.callback v) (some (held.clone t.nextId)))
        (held.lost t.nextId b + L))
    have hlost : total E s.holders t.denotes (held.lost s.nextId b + L) =
        held.lost s.nextId b + total E s.holders t.denotes L := by
      rw [total, total, add_left_comm]
    rw [total_insert_new hv, h.nextId, hlost]
    exact h.sound.cloneObject hsees ha hb hab

theorem moveCallback (h : Related s t E L) {v w : ℕ} (hc : s.Allowed (.moveCallback v w)) :
    Related (s.exec (.moveCallback v w)) (t.exec (.moveCallback v w)) E L := by
  obtain ⟨hv, hw⟩ := hc
  have hne : .callback v ∉ (s.hold (.callback w) none).holders := by
    rw [CallbackSystem.hold, AList.mem_insert]
    rintro (heq | hmem)
    · exact hv (heq ▸ hw)
    · exact hv hmem
  have hsound := h.sound
  rw [total_erase (lookup_of_mem hw)] at hsound
  refine ⟨h.vec, h.param, h.nextId, ?_⟩
  show Sound s.memory s.nextId (total E ((s.hold (.callback w) none).holders.insert (.callback v) _)
    (Function.update (t.set (.callback w) none).denotes (.callback v) _) L)
  rw [total_insert_new hne, CallbackSystem.hold, CallbackClient.set, total_insert,
    Multiset.cons_swap]
  exact hsound.null

/-- An adapter is made for the callback of a variable of the untyped signature. -/
theorem generalise (h : Related s t E L) {v w : ℕ} {sig : Signature} {a : ℕ}
    (hc : s.Allowed (.generalise v w sig a)) :
    Related (s.exec (.generalise v w sig a)) (t.exec (.generalise v w sig a)) E L := by
  obtain ⟨hv, hw, ha, f, u, hf, hu, hg, -, -⟩ := hc
  have hsees := h.sees hw
  rw [CallbackSystem.exec, CallbackClient.exec, hf]
  rw [hf] at hsees
  obtain ⟨held, hd⟩ := hsees.exists_held
  rw [hd] at hsees
  have hsig := hsees.sigAt_eq
  rw [hu] at hsig
  rw [Option.some.inj hsig] at hg
  refine ⟨h.vec, h.param, h.nextId, ?_⟩
  cases hsees with
  | impl hitem =>
    show Sound (newAdapt sig a f s.memory) s.nextId (total E (s.holders.insert _ (some a))
      (Function.update t.denotes (.callback v) ((t.denotes (.callback w)).map _)) L)
    rw [total_insert_new hv, hd]
    exact h.sound.newAdapt ha hitem hg
  | adapt hitem hfunc hgeneric =>
    -- an untyped signature has no generic one, so that no adapter implements it
    have hnone := ArgType.genericType_of_eq_some hg
    exact absurd (hnone.symm.trans hgeneric) (Option.some_ne_none _).symm

/-- Two variables that exchange their pointers exchange what they denote. -/
theorem swap (h : Related s t E L) {x y : CallbackHolder} (hc : s.Allowed (.swap x y)) :
    Related (s.exec (.swap x y)) (t.exec (.swap x y)) E L := by
  obtain ⟨hx, hy, -⟩ := hc
  have hx' := lookup_of_mem hx
  have hy' := lookup_of_mem hy
  refine ⟨h.vec, h.param, h.nextId, ?_⟩
  show Sound s.memory s.nextId
    (total E ((s.hold x (s.mCb y)).holders.insert y (s.mCb x))
      (Function.update (t.set x (t.denotes y)).denotes y (t.denotes x)) L)
  have hfirst : total E (s.hold x (s.mCb y)).holders (t.set x (t.denotes y)).denotes L =
      (s.mCb y, t.denotes y) ::ₘ total E (s.holders.erase x) t.denotes L := total_insert _ _
  have hsame : (s.hold x (s.mCb y)).holders.lookup y = some (s.mCb y) := by
    by_cases hxy : y = x
    · rw [hxy, CallbackSystem.hold, AList.lookup_insert]
    · rw [CallbackSystem.hold, AList.lookup_insert_ne hxy, hy']
  have hdenotes : (t.set x (t.denotes y)).denotes y = t.denotes y := by
    show Function.update t.denotes x (t.denotes y) y = t.denotes y
    by_cases hxy : y = x
    · rw [hxy, Function.update_self]
    · rw [Function.update_of_ne hxy]
  -- the pointer of `y` apart, what is left are the holders without `x`
  rw [total_erase hsame, hdenotes] at hfirst
  rw [total_insert, (Multiset.cons_inj_right _).1 hfirst, ← total_erase hx']
  exact h.sound

/-- A copy of a handle denotes what the source does. -/
theorem copyHandle (h : Related s t E L) {g : ℕ} {x : CallbackHolder}
    (hc : s.Allowed (.copyHandle g x)) :
    Related (s.exec (.copyHandle g x)) (t.exec (.copyHandle g x)) E L := by
  obtain ⟨hg, hx⟩ := hc
  refine ⟨h.vec, h.param, h.nextId, ?_⟩
  show Sound (acquirePtr (s.mCb x) s.memory) s.nextId (total E (s.holders.insert _ (s.mCb x))
    (Function.update t.denotes (.handle g) (t.denotes x)) L)
  rw [total_insert_new hg]
  exact h.sound.acquire (h.sees hx)

/-- So does a recovered one, unless it is invalid. -/
theorem typedHandle (h : Related s t E L) {r g : ℕ} {sig : Signature} {a : ℕ}
    (hc : s.Allowed (.typedHandle r g sig a)) :
    Related (s.exec (.typedHandle r g sig a)) (t.exec (.typedHandle r g sig a)) E L := by
  obtain ⟨hr, hg, ha⟩ := hc
  refine ⟨h.vec, h.param, h.nextId, ?_⟩
  show Sound (typedHandlePtr sig a _ s.memory).2 s.nextId
    (total E (s.holders.insert _ (typedHandlePtr sig a _ s.memory).1)
      (Function.update t.denotes (.handle r) (cciCallbackTypedHandle sig _)) L)
  rw [total_insert_new hr]
  exact h.sound.typedHandle (h.sees hg) ha sig

/-- A variable that is left gives up its reference. -/
theorem sound_release (h : Related s t E L) {x : CallbackHolder} (hx : x ∈ s.holders) :
    Sound (releasePtr (s.mCb x) s.memory) s.nextId (total E (s.holders.erase x) t.denotes L) := by
  have hsound := h.sound
  rw [total_erase (lookup_of_mem hx)] at hsound
  exact hsound.release

theorem clear (h : Related s t E L) {g : ℕ} (hc : s.Allowed (.clear g)) :
    Related (s.exec (.clear g)) (t.exec (.clear g)) E L := by
  refine ⟨h.vec, h.param, h.nextId, ?_⟩
  show Sound (releasePtr _ s.memory) s.nextId (total E (s.holders.insert _ none)
    (Function.update t.denotes (.handle g) none) L)
  rw [total_insert]
  exact (h.sound_release hc).null

theorem register (h : Related s t E L) {r : ℕ} {k : CallbackKind} {g : ℕ} {orig : CciOriginator}
    (hc : s.Allowed (.register r k g orig)) :
    Related (s.exec (.register r k g orig)) (t.exec (.register r k g orig))
      (Function.update E k (E k ++ [(s.mCb (.handle g), ⟨t.denotes (.handle g), orig⟩)])) L := by
  obtain ⟨hr, hg⟩ := hc
  have hsees := h.sees hg
  refine ⟨fun k' => ?_, fun k' => ?_, h.nextId, ?_⟩
  · show Function.update s.vec k (s.vec k ++ [CallbackEntry.mk _ orig]) k' = _
    by_cases hk : k' = k
    · subst hk
      rw [Function.update_self, Function.update_self, List.map_append, h.vec]
      rfl
    · rw [Function.update_of_ne hk, Function.update_of_ne hk, h.vec]
  · show (CciParamUntyped.registerCallback k _ orig t.param).2.vec k' = _
    rw [CciParamUntyped.vec_registerCallback]
    by_cases hk : k' = k
    · subst hk
      rw [if_pos rfl, Function.update_self, List.map_append, h.param]
      rfl
    · rw [if_neg hk, Function.update_of_ne hk, h.param]
  · show Sound (acquirePtr _ (acquirePtr _ s.memory)) s.nextId
      (total _ (s.holders.insert _ (s.mCb (.handle g)))
        (Function.update t.denotes (.handle r) (t.denotes (.handle g))) L)
    rw [total_insert_new hr, total_update (List.perm_append_singleton _ _),
      Function.update_eq_self]
    have hentry := h.sound.acquire hsees
    exact hentry.acquire (hentry.sees _ (Multiset.mem_cons_self _ _))

/-- The test of the loop in memory is that on what is denoted. -/
theorem matchesEntry_eq (h : Related s t E L) {k : CallbackKind} {g : ℕ}
    (hg : .handle g ∈ s.holders) (orig : CciOriginator) {y : Option ℕ × CallbackObj}
    (hy : y ∈ E k) :
    CallbackSystem.matchesEntry s.memory (s.mCb (.handle g)) orig ⟨y.1, y.2.originator⟩ =
      CciParamUntyped.matchesEntry (t.denotes (.handle g)) orig y.2 := by
  rw [CallbackSystem.matchesEntry, CciParamUntyped.matchesEntry,
    h.sound.getPtr_beq (h.sees_entry hy) (h.sees hg)]

/-- The loop in memory finds and erases the entry that the loop on what is denoted does. -/
theorem unregisterCallback_eq (h : Related s t E L) {g : ℕ} (hg : .handle g ∈ s.holders)
    (k : CallbackKind) (orig : CciOriginator) :
    s.unregisterCallback k (s.mCb (.handle g)) orig =
      match (E k).find? fun y => CciParamUntyped.matchesEntry (t.denotes (.handle g)) orig y.2 with
      | some y => (true, { s with
          memory := releasePtr y.1 s.memory
          vec := Function.update s.vec k (((E k).eraseP fun y =>
            CciParamUntyped.matchesEntry (t.denotes (.handle g)) orig y.2).map
              fun x => CallbackEntry.mk x.1 x.2.originator) })
      | none => (false, s) := by
  have htest : ∀ y ∈ E k, (CallbackSystem.matchesEntry s.memory (s.mCb (.handle g)) orig ∘
      fun x => CallbackEntry.mk x.1 x.2.originator) y =
        CciParamUntyped.matchesEntry (t.denotes (.handle g)) orig y.2 :=
    fun y hy => h.matchesEntry_eq hg orig hy
  rw [unregisterCallback, h.vec, List.find?_map, List.eraseP_map, List.find?_congr htest,
    EraseLoop.eraseP_congr htest]
  cases (E k).find? _ <;> rfl

theorem unregister (h : Related s t E L) {k : CallbackKind} {g : ℕ} {orig : CciOriginator}
    (hc : s.Allowed (.unregister k g orig)) :
    Related (s.exec (.unregister k g orig)) (t.exec (.unregister k g orig))
      (Function.update E k ((E k).eraseP fun y =>
        CciParamUntyped.matchesEntry (t.denotes (.handle g)) orig y.2)) L := by
  have hparam : ∀ k', (t.exec (.unregister k g orig)).param.vec k' =
      (Function.update E k ((E k).eraseP fun y =>
        CciParamUntyped.matchesEntry (t.denotes (.handle g)) orig y.2) k').map Prod.snd := by
    intro k'
    show (CciParamUntyped.unregisterCallback k _ orig t.param).2.vec k' = _
    rw [CciParamUntyped.vec_unregisterCallback]
    by_cases hk : k' = k
    · subst hk
      rw [if_pos rfl, Function.update_self, h.param, List.eraseP_map]
      rfl
    · rw [if_neg hk, Function.update_of_ne hk, h.param]
  rw [CallbackSystem.exec, h.unregisterCallback_eq hc]
  cases hfind : (E k).find? fun y =>
      CciParamUntyped.matchesEntry (t.denotes (.handle g)) orig y.2 with
  | none =>
    have hsame : (E k).eraseP (fun y =>
        CciParamUntyped.matchesEntry (t.denotes (.handle g)) orig y.2) = E k :=
      List.eraseP_of_forall_not (List.find?_eq_none.1 hfind)
    rw [hsame, Function.update_eq_self] at hparam ⊢
    exact ⟨h.vec, hparam, h.nextId, h.sound⟩
  | some y =>
    refine ⟨fun k' => ?_, hparam, h.nextId, ?_⟩
    · show Function.update s.vec k _ k' = _
      by_cases hk : k' = k
      · subst hk
        rw [Function.update_self, Function.update_self]
      · rw [Function.update_of_ne hk, Function.update_of_ne hk, h.vec]
    · have hsound := h.sound
      rw [← Function.update_eq_self k E, total_update (EraseLoop.perm_eraseP hfind)] at hsound
      exact hsound.release

theorem destroy (h : Related s t E L) {x : CallbackHolder} (hc : s.Allowed (.destroy x)) :
    Related (s.exec (.destroy x)) (t.exec (.destroy x)) E L :=
  ⟨h.vec, h.param, h.nextId, h.sound_release hc⟩

theorem emptyHandle (h : Related s t E L) {g : ℕ} (hc : s.Allowed (.emptyHandle g)) :
    Related (s.exec (.emptyHandle g)) (t.exec (.emptyHandle g)) E L := by
  refine ⟨h.vec, h.param, h.nextId, ?_⟩
  show Sound s.memory s.nextId (total E (s.holders.insert _ none)
    (Function.update t.denotes (.handle g) none) L)
  rw [total_insert_new hc]
  exact h.sound.null

theorem of_lost (h : Related s t E L) : Related s t E (0 + L) := by
  rw [zero_add]
  exact h

/-- **Memory follows the client.**  After any command the pointers lead to what the variables and the
entries denote. -/
theorem exec (h : Related s t E L) {c : CallbackCommand} (hc : s.Allowed c) :
    ∃ E', Related (s.exec c) (t.exec c) E' (t.lost c + L) := by
  cases c with
  | construct v sig a => exact ⟨E, (h.construct hc).of_lost⟩
  | copyCallback v w a b => exact ⟨E, h.copyCallback hc⟩
  | moveCallback v w => exact ⟨E, (h.moveCallback hc).of_lost⟩
  | generalise v w sig a => exact ⟨E, (h.generalise hc).of_lost⟩
  | emptyHandle g => exact ⟨E, (h.emptyHandle hc).of_lost⟩
  | copyHandle g x => exact ⟨E, (h.copyHandle hc).of_lost⟩
  | typedHandle r g sig a => exact ⟨E, (h.typedHandle hc).of_lost⟩
  | swap x y => exact ⟨E, (h.swap hc).of_lost⟩
  | clear g => exact ⟨E, (h.clear hc).of_lost⟩
  | destroy x => exact ⟨E, (h.destroy hc).of_lost⟩
  | register r k g orig => exact ⟨_, (h.register hc).of_lost⟩
  | unregister k g orig => exact ⟨_, (h.unregister hc).of_lost⟩

/-- Before the first command there is nothing. -/
theorem start {q : CciParam T} (hq : ∀ k, q.vec k = []) :
    Related {} { param := q } (fun _ => []) 0 := by
  have hnone : total (fun _ => []) ∅ (fun _ => none) 0 = 0 := rfl
  refine ⟨fun _ => rfl, hq, rfl, ?_⟩
  show Sound ∅ 0 (total (fun _ => []) ∅ (fun _ => none) 0)
  rw [hnone]
  refine ⟨⟨fun _ => rfl, fun a x hx => ?_⟩, fun x hx => absurd hx (Multiset.notMem_zero x), ?_, ?_⟩
  · cases hx
  · intro a id sig ha
    cases ha
  · intro a b id sig sig' ha
    cases ha

end Related

/-- What programs reach from an empty memory and a parameter without callbacks. -/
inductive Reached (q : CciParam T) : CallbackSystem → CallbackClient T → Prop
  | start : Reached q {} { param := q }
  | step {s : CallbackSystem} {t : CallbackClient T} {c : CallbackCommand} :
      Reached q s t → s.Allowed c → Reached q (s.exec c) (t.exec c)

theorem Reached.related {q : CciParam T} (hq : ∀ k, q.vec k = []) {s : CallbackSystem}
    {t : CallbackClient T} (h : Reached q s t) : ∃ E L, Related s t E L := by
  induction h with
  | start => exact ⟨_, _, Related.start hq⟩
  | step _ hc ih =>
    obtain ⟨E, L, hrel⟩ := ih
    obtain ⟨E', hnext⟩ := hrel.exec hc
    exact ⟨E', _, hnext⟩

end Cci
