import Mathlib

/-!
# Originators

`cci_originator` names who owns a parameter, who wrote it and through which handle it is accessed.
It is bound to a SystemC object, given by a string name, or unknown.

* `CciOriginator` with `getObject` and `name`;
* `CciOriginator.eq` — `operator==`: objects compare by address, everything else by the C string of
  `name()`; an `EquivBEq` instance makes it usable as an equivalence.
-/

namespace Cci

/-- What a C string function sees of a `std::string`: the bytes before the first NUL. -/
def cStr (s : String) : String := String.ofList (s.toList.takeWhile (· ≠ '\x00'))

/-- A SystemC object: its address and its hierarchical name. -/
structure ScObject where
  addr : ℕ
  name : String
deriving DecidableEq, Repr

inductive CciOriginator where
  | unknown : CciOriginator
  | named : String → CciOriginator
  | object : ScObject → CciOriginator
deriving DecidableEq, Repr

/-- `CCI_UNKNOWN_ORIGINATOR_STRING_`. -/
def unknownOriginatorString : String := "UNKNOWN_ORIGINATOR"

namespace CciOriginator

/-- `get_object()`: the address of the bound object, NULL if there is none. -/
def getObject : CciOriginator → Option ℕ
  | .object obj => some obj.addr
  | _ => none

def name : CciOriginator → String
  | .object obj => cStr obj.name
  | .named s => cStr s
  | .unknown => unknownOriginatorString

/-- `operator==`. -/
def eq (a b : CciOriginator) : Bool :=
  if a.getObject.isSome || b.getObject.isSome then a.getObject == b.getObject
  else a.name == b.name

instance : BEq CciOriginator := ⟨eq⟩

theorem beq_def (a b : CciOriginator) : (a == b) = eq a b := rfl

/-- What `operator==` compares: the object if there is one, else the name. -/
def key (a : CciOriginator) : Option ℕ × String :=
  match a.getObject with
  | some addr => (some addr, "")
  | none => (none, a.name)

theorem beq_iff_key (a b : CciOriginator) : (a == b) = true ↔ a.key = b.key := by
  rw [beq_def]
  cases a <;> cases b <;> simp [eq, key, getObject]

instance : EquivBEq CciOriginator where
  rfl := (beq_iff_key _ _).2 rfl
  symm h := (beq_iff_key _ _).2 ((beq_iff_key _ _).1 h).symm
  trans h₁ h₂ := (beq_iff_key _ _).2 (((beq_iff_key _ _).1 h₁).trans ((beq_iff_key _ _).1 h₂))

end CciOriginator

end Cci
