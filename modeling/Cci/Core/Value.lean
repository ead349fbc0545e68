import Cci.Cfg.World

/-!
# Values

What a `cci_value` holds: a JSON value.

* `CciValue` — the values, with `isNull`;
* `IntegerType` — the four integer types that can be stored and queried;
* `valueAssertFailed` — a `VALUE_ASSERT` that fails;
* `Converter` — `cci_value_converter<T>`, and `Converter.cciValue`, the constructor of a `cci_value`.
-/

namespace Cci

open Effect

/-- The value of a `cci_value`.  Integers are stored exactly, a double is given by its bits, and
strings are byte strings, which may contain NUL. -/
inductive CciValue where
  | null : CciValue
  | bool : Bool → CciValue
  | integer : ℤ → CciValue
  | double : UInt64 → CciValue
  | string : List UInt8 → CciValue
  | list : List CciValue → CciValue
  | map : List (List UInt8 × CciValue) → CciValue
deriving Inhabited, Repr

/-- The integer types with accessors of their own: `int`, `unsigned`, `int64` and `uint64`. -/
inductive IntegerType where
  | int | uint | int64 | uint64
deriving DecidableEq, Repr

namespace IntegerType

def signed : IntegerType → Bool
  | .int | .int64 => true
  | .uint | .uint64 => false

def width : IntegerType → ℕ
  | .int | .uint => 32
  | .int64 | .uint64 => 64

end IntegerType

/-- The least number of a signed or unsigned type of `w` bits. -/
def leastOf (signed : Bool) (w : ℕ) : ℤ := if signed then -2 ^ (w - 1) else 0

/-- The greatest one. -/
def greatestOf (signed : Bool) (w : ℕ) : ℤ := if signed then 2 ^ (w - 1) - 1 else 2 ^ w - 1

/-- The number lies in the range of the type. -/
def inRange (signed : Bool) (w : ℕ) (x : ℤ) : Bool :=
  decide (leastOf signed w ≤ x ∧ x ≤ greatestOf signed w)

namespace CciValue

/-- `is_null()`. -/
def isNull : CciValue → Bool
  | .null => true
  | _ => false

end CciValue

/-- `VALUE_ASSERT( cond, msg )` where the condition does not hold: the failure is reported; if that
comes back, the program is stopped. -/
def valueAssertFailed {ε σ α : Type} (throws : Bool) (thrown : Report → ε) (cond msg : String) :
    Eff ε σ α :=
  if throws then Eff.raise (thrown (cciValueFailure (msg ++ "\n Condition: " ++ cond)))
  else Eff.abort

/-- A `cci_value_converter<T>`: `pack` and `unpack` with their results and the destinations
afterwards.  The destination of `pack` is a new value, and packing may be left by the exception of a
report. -/
structure Converter (T : Type) where
  pack : T → Except Report (Bool × CciValue)
  unpack : T → CciValue → Bool × T

/-- The constructor `cci_value(const T&)`: a conversion that fails is reported, and the report may
throw. -/
def Converter.cciValue {T : Type} (conv : Converter T) (throws : Bool) (src : T) :
    Except Report CciValue :=
  match conv.pack src with
  | .error e => .error e
  | .ok (true, c) => .ok c
  | .ok (false, c) =>
      if throws then .error (cciValueFailure "conversion to cci_value failed") else .ok c

end Cci
