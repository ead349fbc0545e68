import Mathlib

/-!
# Callback handles

A `cci_callback_untyped_handle` holds a callback implementation object, directly or through a
`callback_generic_adapt`, or nothing.  `cci_callback_typed_handle<ArgType,ResultType>` recovers the
type of an untyped handle: it keeps a callback of its own signature, wraps an untyped (generic)
callback of the same result type in an adapter, and is invalid otherwise.

* `Signature`, `CallbackImpl`, `Held`, `CallbackHandle`;
* `CallbackHandle.get` and `CallbackHandle.eq` — `operator==` compares the underlying objects;
* `cciCallbackTypedHandle` — the type recovering constructor;
* `CallbackKind.signature` — the signature a parameter of a given type dispatches to.
-/

namespace Cci

/-- The argument of a callback signature: a write or read event, typed (`some` type id) or
untyped (`none`), or anything else. -/
inductive ArgType where
  | writeEvent : Option ℕ → ArgType
  | readEvent : Option ℕ → ArgType
  | other : ℕ → ArgType
deriving DecidableEq, Repr

inductive ResultType where
  | bool : ResultType
  | void : ResultType
  | other : ℕ → ResultType
deriving DecidableEq, Repr

structure Signature where
  arg : ArgType
  result : ResultType
deriving DecidableEq, Repr

/-- `Traits::generic_type`: the untyped form of a typed event, for the argument types that are
generalizable. -/
def ArgType.genericType : ArgType → Option ArgType
  | .writeEvent (some _) => some (.writeEvent none)
  | .readEvent (some _) => some (.readEvent none)
  | _ => none

/-- A `callback_impl` object: its address and the signature it implements. -/
structure CallbackImpl where
  addr : ℕ
  sig : Signature
deriving DecidableEq, Repr

/-- What a non-empty handle holds: an implementation, or a `callback_generic_adapt` for a typed
signature around an untyped implementation. -/
inductive Held where
  | impl : CallbackImpl → Held
  | adapt : CallbackImpl → Signature → Held
deriving DecidableEq, Repr

namespace Held

/-- `callback_untyped_if::get`: an adapter answers for the callback it wraps. -/
def get : Held → CallbackImpl
  | .impl f => f
  | .adapt f _ => f

/-- The signature the held object itself implements. -/
def sig : Held → Signature
  | .impl f => f.sig
  | .adapt _ s => s

end Held

/-- `cci_callback_untyped_handle`; `none` is an invalid handle. -/
abbrev CallbackHandle := Option Held

namespace CallbackHandle

/-- `get()`. -/
def get (h : CallbackHandle) : Option CallbackImpl := h.map Held.get

/-- `operator==`: both handles denote the same callback object. -/
def eq (a b : CallbackHandle) : Bool := a.get.map CallbackImpl.addr == b.get.map CallbackImpl.addr

/-- `valid<ResultType,ArgType>()`. -/
def validFor (h : CallbackHandle) (s : Signature) : Bool :=
  match h with
  | some held => held.sig == s
  | none => false

end CallbackHandle

/-- `callback_generic_adapt<traits>::convert`. -/
def genericAdaptConvert (s : Signature) (f : Option CallbackImpl) : CallbackHandle :=
  match s.arg.genericType, f with
  | some g, some f => if f.sig = ⟨g, s.result⟩ then some (.adapt f s) else none
  | _, _ => none

/-- `cci_callback_typed_handle(const cci_callback_untyped_handle&)`. -/
def cciCallbackTypedHandle (s : Signature) (h : CallbackHandle) : CallbackHandle :=
  match h with
  | none => none
  | some held => if h.validFor s then h else genericAdaptConvert s (some held.get)

/-- The four callback lists of a parameter. -/
inductive CallbackKind where
  | preWrite | postWrite | preRead | postRead
deriving DecidableEq, Repr

namespace CallbackKind

instance : Fintype CallbackKind :=
  ⟨{.preWrite, .postWrite, .preRead, .postRead}, fun k => by cases k <;> decide⟩

/-- The argument type of the events of a list, for a parameter of the given type (`none`: the
untyped event). -/
def argType : CallbackKind → Option ℕ → ArgType
  | .preWrite, t | .postWrite, t => .writeEvent t
  | .preRead, t | .postRead, t => .readEvent t

def resultType : CallbackKind → ResultType
  | .preWrite => .bool
  | _ => .void

/-- The signature of `cci_param_<kind>_callback_handle<T>`. -/
def signature (k : CallbackKind) (t : ℕ) : Signature := ⟨k.argType (some t), k.resultType⟩

end CallbackKind

/-- A recovered callback has the signature asked for, and is the callback of the source: that very
object, or an adapter for it around an untyped callback. -/
theorem cciCallbackTypedHandle_eq_some {s : Signature} {h : CallbackHandle} {held : Held}
    (hh : cciCallbackTypedHandle s h = some held) :
    held.sig = s ∧ h.get = some held.get ∧ (h = some held ∨
      held = .adapt held.get s ∧ s.arg.genericType = some held.get.sig.arg) := by
  cases h with
  | none => cases hh
  | some own =>
    simp only [cciCallbackTypedHandle, CallbackHandle.validFor, beq_iff_eq] at hh
    split at hh
    · rename_i hs
      cases hh
      exact ⟨hs, rfl, .inl rfl⟩
    · cases hg : s.arg.genericType with
      | none => simp only [genericAdaptConvert, hg, reduceCtorEq] at hh
      | some g =>
        simp only [genericAdaptConvert, hg, Option.ite_none_right_eq_some, Option.some.injEq] at hh
        obtain ⟨hsig, rfl⟩ := hh
        exact ⟨rfl, rfl, .inr ⟨rfl, congrArg (some ∘ Signature.arg) hsig.symm⟩⟩

end Cci
