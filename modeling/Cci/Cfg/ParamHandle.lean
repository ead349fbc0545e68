import Cci.Lib.Triple
import Cci.Cfg.World

/-!
# Parameter handles

A `cci_param_untyped_handle` points to its parameter, and the parameter keeps the list of the handles
that point to it, so that its destruction can invalidate them.  The state of this file is the memory
of both kinds of objects; dereferencing a pointer to no object stops the program.

* `CciParamUntypedHandle`, `ParamObject`, `HandleHeap` — the objects and where they live;
* `construct`, `copyConstruct`, `assign`, `invalidate`, `destruct`, `typedConstruct`, `paramCast` —
  the member functions of the handles;
* `invalidateAllParamHandles`, `destroy`, `constructParam`, `destructParam` — those of the parameters,
  with the exceptions of create and destroy callbacks;
* `HandleOp`, `HandleCmd` — what client code does, callbacks included.
-/

namespace Cci

open Effect

/-- A `cci_param_untyped_handle`; a `cci_param_typed_handle<T>` has the same members. -/
structure CciParamUntypedHandle (P : Type) where
  mParam : Option P
  mOriginator : CciOriginator
deriving DecidableEq, Repr

/-- `is_valid`. -/
def CciParamUntypedHandle.isValid {P : Type} (x : CciParamUntypedHandle P) : Bool := x.mParam.isSome

/-- What the handles see of a parameter: `typeid(T)`, `m_originator` and `m_param_handles`. -/
structure ParamObject (H : Type) where
  typeInfo : ℕ
  mOriginator : CciOriginator
  mParamHandles : List H := []

/-- The handle and parameter objects by address, and `sc_get_current_object()`. -/
structure HandleHeap (H P : Type) where
  handles : H → Option (CciParamUntypedHandle P) := fun _ => none
  params : P → Option (ParamObject H) := fun _ => none
  currentObject : Option ScObject := none

/-- Computations on handles.  The member functions of the handles throw no exception. -/
abbrev HandleM (H P α : Type) : Type := Eff Report (HandleHeap H P) α

namespace HandleHeap

variable {H P : Type} [DecidableEq H] [DecidableEq P]

def setHandle (h : H) (x : Option (CciParamUntypedHandle P)) (s : HandleHeap H P) : HandleHeap H P :=
  { s with handles := Function.update s.handles h x }

def setParam (p : P) (obj : Option (ParamObject H)) (s : HandleHeap H P) : HandleHeap H P :=
  { s with params := Function.update s.params p obj }

/-! ### Dereferencing -/

/-- `*h`. -/
def deref (h : H) : HandleM H P (CciParamUntypedHandle P) := fun s =>
  match s.handles h with
  | some x => (.ok x, s)
  | none => (.abort, s)

/-- `*p`. -/
def derefParam (p : P) : HandleM H P (ParamObject H) := fun s =>
  match s.params p with
  | some obj => (.ok obj, s)
  | none => (.abort, s)

/-! ### Member functions of the parameter -/

/-- `add_param_handle`. -/
def addParamHandle (p : P) (h : H) : HandleM H P Unit := do
  let obj ← derefParam p
  Eff.modify (setParam p (some { obj with mParamHandles := obj.mParamHandles ++ [h] }))

/-- `remove_param_handle`: the erase-remove of all entries equal to `h`. -/
def removeParamHandle (p : P) (h : H) : HandleM H P Unit := do
  let obj ← derefParam p
  Eff.modify (setParam p
    (some { obj with mParamHandles := obj.mParamHandles.filter fun g => g ≠ h }))

/-! ### Member functions of the handle -/

/-- `promote_originator`. -/
def promoteOriginator (giftedOriginator : CciOriginator) (s : HandleHeap H P) : CciOriginator :=
  match s.currentObject with
  | some obj => .object obj
  | none => giftedOriginator

/-- `if (m_param) m_param->add_param_handle(this)`. -/
def addToParam (mParam : Option P) (h : H) : HandleM H P Unit :=
  match mParam with
  | some p => addParamHandle p h
  | none => pure ()

/-- `if (m_param) m_param->remove_param_handle(this)`. -/
def removeFromParam (mParam : Option P) (h : H) : HandleM H P Unit :=
  match mParam with
  | some p => removeParamHandle p h
  | none => pure ()

/-- `cci_param_untyped_handle(param, originator)`; also `create_param_handle`. -/
def construct (h : H) (p : P) (originator : CciOriginator) : HandleM H P Unit := do
  Eff.modify (setHandle h (some ⟨some p, originator⟩))
  addParamHandle p h

/-- `cci_param_untyped_handle(originator)`. -/
def constructInvalid (h : H) (originator : CciOriginator) : HandleM H P Unit :=
  Eff.modify (setHandle h (some ⟨none, originator⟩))

/-- The copy constructor.  The move constructor has the same body: moving a pointer copies it. -/
def copyConstruct (h paramHandle : H) : HandleM H P Unit := do
  let x ← deref paramHandle
  Eff.modify fun s => setHandle h (some ⟨x.mParam, promoteOriginator x.mOriginator s⟩) s
  addToParam x.mParam h

/-- `operator=`, by copy and by move. -/
def assign (h paramHandle : H) : HandleM H P Unit := do
  if h = paramHandle then pure ()
  else
    let x ← deref h
    removeFromParam x.mParam h
    let src ← deref paramHandle
    -- the originator is explicitly not assigned
    Eff.modify (setHandle h (some { x with mParam := src.mParam }))
    addToParam src.mParam h

/-- `invalidate`. -/
def invalidate (h : H) : HandleM H P Unit := do
  let x ← deref h
  removeFromParam x.mParam h
  Eff.modify (setHandle h (some { x with mParam := none }))

/-- The destructor. -/
def destruct (h : H) : HandleM H P Unit := do
  invalidate h
  Eff.modify (setHandle h none)

/-- `if (is_valid() && typeid(T) != get_type_info()) invalidate()`. -/
def typeCheck (h : H) (typeId : ℕ) : HandleM H P Unit := do
  let x ← deref h
  match x.mParam with
  | some p =>
      let obj ← derefParam p
      if typeId ≠ obj.typeInfo then invalidate h else pure ()
  | none => pure ()

/-- The constructor of `cci_param_typed_handle<T>` from an untyped handle. -/
def typedConstruct (h untyped : H) (typeId : ℕ) : HandleM H P Unit := do
  copyConstruct h untyped
  typeCheck h typeId

/-- `cci_param_cast<T>(untyped)`: the constructor takes its argument by value, in `arg`. -/
def paramCast (h untyped arg : H) (typeId : ℕ) : HandleM H P Unit := do
  copyConstruct arg untyped
  typedConstruct h arg typeId
  destruct arg

/-! ### Construction and destruction of parameters -/

/-- `m_param_handles` of `p`; empty where there is no parameter. -/
def back (s : HandleHeap H P) (p : P) : List H := ((s.params p).map (·.mParamHandles)).getD []

/-- `m_param_handles.front()->invalidate()`. -/
def invalidateFront (p : P) : HandleM H P Unit := do
  let obj ← derefParam p
  match obj.mParamHandles with
  | h :: _ => invalidate h
  | [] => Eff.abort

/-- `invalidate_all_param_handles`. -/
def invalidateAllParamHandles (fuel : ℕ) (p : P) : HandleM H P Unit :=
  whileDo (fun s => !(back s p).isEmpty) (invalidateFront p) fuel

end HandleHeap

/-! ### Client code -/

/-- What client code does with handles. -/
inductive HandleOp (H P : Type) where
  | construct (h : H) (p : P) (originator : CciOriginator) : HandleOp H P
  | constructInvalid (h : H) (originator : CciOriginator) : HandleOp H P
  | copyConstruct (h paramHandle : H) : HandleOp H P
  | assign (h paramHandle : H) : HandleOp H P
  | invalidate (h : H) : HandleOp H P
  | destruct (h : H) : HandleOp H P
  | typedConstruct (h untyped : H) (typeId : ℕ) : HandleOp H P
  | paramCast (h untyped arg : H) (typeId : ℕ) : HandleOp H P
  | setCurrentObject (obj : Option ScObject) : HandleOp H P

namespace HandleOp

variable {H P : Type} [DecidableEq H] [DecidableEq P]

/-- New objects are built at unused addresses, and what is used exists. -/
def enabled (s : HandleHeap H P) : HandleOp H P → Bool
  | .construct h p _ => (s.handles h).isNone && (s.params p).isSome
  | .constructInvalid h _ => (s.handles h).isNone
  | .copyConstruct h paramHandle => (s.handles h).isNone && (s.handles paramHandle).isSome
  | .assign h paramHandle => (s.handles h).isSome && (s.handles paramHandle).isSome
  | .invalidate h | .destruct h => (s.handles h).isSome
  | .typedConstruct h untyped _ => (s.handles h).isNone && (s.handles untyped).isSome
  | .paramCast h untyped arg _ =>
      (s.handles h).isNone && (s.handles arg).isNone && decide (h ≠ arg)
        && (s.handles untyped).isSome
  | .setCurrentObject _ => true

def run : HandleOp H P → HandleM H P Unit
  | .construct h p originator => HandleHeap.construct h p originator
  | .constructInvalid h originator => HandleHeap.constructInvalid h originator
  | .copyConstruct h paramHandle => HandleHeap.copyConstruct h paramHandle
  | .assign h paramHandle => HandleHeap.assign h paramHandle
  | .invalidate h => HandleHeap.invalidate h
  | .destruct h => HandleHeap.destruct h
  | .typedConstruct h untyped typeId => HandleHeap.typedConstruct h untyped typeId
  | .paramCast h untyped arg typeId => HandleHeap.paramCast h untyped arg typeId
  | .setCurrentObject obj => Eff.modify fun s => { s with currentObject := obj }

/-- An operation on objects that are not there is not issued. -/
def exec (op : HandleOp H P) : HandleM H P Unit := fun s =>
  if op.enabled s then op.run s else (.ok (), s)

/-- The operation ends the life of `h`. -/
def destructs (h : H) : HandleOp H P → Bool
  | .destruct g => decide (g = h)
  | _ => false

end HandleOp

/-- What one create or destroy callback does: the address of the handle it is called with, its body, and
the exception it ends with. -/
structure ParamCallback (H P : Type) where
  temporary : H
  body : List (HandleOp H P)
  raises : Option Report := none

namespace HandleHeap

variable {H P : Type} [DecidableEq H] [DecidableEq P]

/-- The exception, if there is one. -/
def raiseIf : Option Report → HandleM H P Unit
  | some e => Eff.raise e
  | none => pure ()

/-- The argument of a callback, its body, and the end of the argument's life, which an exception does
not change. -/
def called (p : P) (cb : ParamCallback H P) : HandleM H P Unit := do
  let obj ← derefParam p
  construct cb.temporary p obj.mOriginator
  (cb.body.filter fun op => !op.destructs cb.temporary).forM HandleOp.exec
  destruct cb.temporary

/-- `callback.invoke(par->create_param_handle(par->get_originator()))`; the body does not destruct
its argument. -/
def invoke (p : P) (cb : ParamCallback H P) : HandleM H P Unit := fun s =>
  if (s.handles cb.temporary).isNone then (called p cb >>= fun _ => raiseIf cb.raises) s
  else (.ok (), s)

/-- `~cci_param_untyped`. -/
def destructUntyped (p : P) : HandleM H P Unit := do
  let obj ← derefParam p
  -- sc_assert( m_param_handles.empty() )
  if obj.mParamHandles.isEmpty then Eff.modify (setParam p none) else Eff.abort

/-- The constructor of a parameter.  `init` throws if the preset of its name does not convert, and its
broker calls the create callbacks.  An exception destroys the base class object, without `destroy`. -/
def constructParam (p : P) (typeInfo : ℕ) (originator : CciOriginator)
    (presetFailure : Option Report) (createCallbacks : List (ParamCallback H P)) :
    HandleM H P Unit := do
  Eff.modify (setParam p (some { typeInfo := typeInfo, mOriginator := originator }))
  let r ← Eff.attempt (raiseIf presetFailure >>= fun _ => createCallbacks.forM (invoke p))
  match r with
  | .ok _ => pure ()
  | .error e => do
      destructUntyped p
      Eff.raise e

/-- `cci_param_if::destroy`: the broker calls the destroy callbacks in `remove_param`.  The loop may
go once round for each handle that is there when it starts. -/
def destroy (p : P) (destroyCallbacks : List (ParamCallback H P)) : HandleM H P Unit := do
  destroyCallbacks.forM (invoke p)
  let s ← Eff.get
  invalidateAllParamHandles (back s p).length p

/-- The destructor of a parameter.  An exception that leaves it ends the program. -/
def destructParam (p : P) (destroyCallbacks : List (ParamCallback H P)) : HandleM H P Unit := do
  let r ← Eff.attempt (destroy p destroyCallbacks)
  match r with
  | .ok _ => destructUntyped p
  | .error _ => Eff.abort

end HandleHeap

/-- What client code does with handles and parameters. -/
inductive HandleCmd (H P : Type) where
  | onHandles (op : HandleOp H P) : HandleCmd H P
  | constructParam (p : P) (typeInfo : ℕ) (originator : CciOriginator)
      (presetFailure : Option Report) (createCallbacks : List (ParamCallback H P)) : HandleCmd H P
  | destructParam (p : P) (destroyCallbacks : List (ParamCallback H P)) : HandleCmd H P

/-- Running a command; one on objects that are not there is not issued. -/
def HandleCmd.exec {H P : Type} [DecidableEq H] [DecidableEq P] :
    HandleCmd H P → HandleM H P Unit
  | .onHandles op => op.exec
  | .constructParam p typeInfo originator presetFailure createCallbacks => fun s =>
      if (s.params p).isNone then
        HandleHeap.constructParam p typeInfo originator presetFailure createCallbacks s
      else (.ok (), s)
  | .destructParam p destroyCallbacks => fun s =>
      if (s.params p).isSome then HandleHeap.destructParam p destroyCallbacks s else (.ok (), s)

end Cci
