import Cci.Core.Value

/-!
# Integers as values

The converters of the integral types.  Four of them have accessors of their own, the others go through
one of these and a cast, without range checks.

* `DataModel`, `IntegralType` — the integral types of the platform;
* `Ranged`, `staticCast` — their values and the conversions between them;
* `builtinConverter`, `delegateConverter`, `integralConverter`;
* `integral_conversion` — when packing and unpacking keeps the number.
-/

namespace Cci

/-! ### Integral types -/

/-- What the language leaves to the platform: whether `char` is signed, and whether `long` has 64 bits
or 32. -/
structure DataModel where
  charSigned : Bool
  long64 : Bool
deriving DecidableEq, Repr

inductive IntegralType where
  | char | signedChar | unsignedChar | short | unsignedShort | int | unsigned | long | unsignedLong
  | int64 | uint64
deriving DecidableEq, Repr

namespace IntegralType

def signed (m : DataModel) : IntegralType → Bool
  | .char => m.charSigned
  | .signedChar | .short | .int | .long | .int64 => true
  | .unsignedChar | .unsignedShort | .unsigned | .unsignedLong | .uint64 => false

def width (m : DataModel) : IntegralType → ℕ
  | .char | .signedChar | .unsignedChar => 8
  | .short | .unsignedShort => 16
  | .int | .unsigned => 32
  | .long | .unsignedLong => if m.long64 then 64 else 32
  | .int64 | .uint64 => 64

/-- The type whose accessors are used: the type itself, or the `UnderlyingType` of
`CCI_VALUE_CONVERTER_DERIVED_`. -/
def underlying : IntegralType → IntegerType
  | .char | .signedChar | .short | .int => .int
  | .unsignedChar | .unsignedShort | .unsigned => .uint
  | .long | .int64 => .int64
  | .unsignedLong | .uint64 => .uint64

/-- The number is representable in the type. -/
def represents (m : DataModel) (t : IntegralType) (x : ℤ) : Bool := inRange (t.signed m) (t.width m) x

end IntegralType

/-- The values of a signed or unsigned type of `w` bits. -/
def Ranged (signed : Bool) (w : ℕ) : Type := { x : ℤ // inRange signed w x = true }

/-- The number of the type that is congruent to `x` modulo `2^w`. -/
def wrapTo (signed : Bool) (w : ℕ) (x : ℤ) : ℤ :=
  (x - leastOf signed w) % 2 ^ w + leastOf signed w

theorem inRange_iff {signed : Bool} {w : ℕ} {x : ℤ} :
    inRange signed w x = true ↔ leastOf signed w ≤ x ∧ x ≤ greatestOf signed w :=
  decide_eq_true_iff

theorem least_add_le_greatest (signed : Bool) (w : ℕ) :
    leastOf signed w + (2 ^ w - 1) ≤ greatestOf signed w := by
  cases signed with
  | false =>
    show (0 : ℤ) + (2 ^ w - 1) ≤ 2 ^ w - 1
    omega
  | true =>
    show -(2 : ℤ) ^ (w - 1) + (2 ^ w - 1) ≤ 2 ^ (w - 1) - 1
    cases w with
    | zero => decide
    | succ w =>
      rw [Nat.add_sub_cancel, pow_succ]
      omega

theorem greatest_lt_least_add (signed : Bool) {w : ℕ} (hw : 0 < w) :
    greatestOf signed w < leastOf signed w + 2 ^ w := by
  cases signed with
  | false =>
    show (2 : ℤ) ^ w - 1 < 0 + 2 ^ w
    omega
  | true =>
    obtain ⟨v, rfl⟩ : ∃ v, w = v + 1 := ⟨w - 1, by omega⟩
    show (2 : ℤ) ^ (v + 1 - 1) - 1 < -2 ^ (v + 1 - 1) + 2 ^ (v + 1)
    rw [Nat.add_sub_cancel, pow_succ]
    omega

theorem inRange_wrapTo (signed : Bool) (w : ℕ) (x : ℤ) :
    inRange signed w (wrapTo signed w x) = true := by
  have hpos : (0 : ℤ) < 2 ^ w := by positivity
  have hnonneg : 0 ≤ (x - leastOf signed w) % 2 ^ w := Int.emod_nonneg _ hpos.ne'
  have hlt : (x - leastOf signed w) % 2 ^ w < 2 ^ w := Int.emod_lt_of_pos _ hpos
  have hgreatest := least_add_le_greatest signed w
  rw [inRange_iff, wrapTo]
  omega

/-- A number of the type stays as it is. -/
theorem wrapTo_of_inRange {signed : Bool} {w : ℕ} {x : ℤ} (hw : 0 < w)
    (hx : inRange signed w x = true) : wrapTo signed w x = x := by
  have hgreatest := greatest_lt_least_add signed hw
  rw [inRange_iff] at hx
  rw [wrapTo, Int.emod_eq_of_lt (by omega) (by omega)]
  omega

/-- `static_cast` between integral types. -/
def staticCast {signed' : Bool} {w' : ℕ} (signed : Bool) (w : ℕ) (x : Ranged signed' w') :
    Ranged signed w :=
  ⟨wrapTo signed w x.1, inRange_wrapTo signed w x.1⟩

/-! ### The converters -/

/-- `DEFINE_BUILTIN_`, for the four types with accessors of their own. -/
def builtinConverter (t : IntegerType) : Converter (Ranged t.signed t.width) where
  pack src := .ok (true, .integer src.1)
  unpack dst
    | .integer x => if h : inRange t.signed t.width x then (true, ⟨x, h⟩) else (false, dst)
    | _ => (false, dst)

/-- `cci_value_delegate_converter<T,U>`; `uninit` is the value of `U u_dst;`. -/
def delegateConverter (signed : Bool) (w : ℕ) (t : IntegerType) (uninit : Ranged t.signed t.width) :
    Converter (Ranged signed w) where
  pack src := (builtinConverter t).pack (staticCast t.signed t.width src)
  unpack dst src :=
    let r := (builtinConverter t).unpack uninit src
    if r.1 then (true, staticCast signed w r.2) else (false, dst)

/-- `cci_value_converter` of the integral types. -/
def integralConverter (m : DataModel) (uninit : ∀ t : IntegerType, Ranged t.signed t.width) :
    (t : IntegralType) → Converter (Ranged (t.signed m) (t.width m))
  | .int => builtinConverter .int
  | .unsigned => builtinConverter .uint
  | .int64 => builtinConverter .int64
  | .uint64 => builtinConverter .uint64
  | .char => delegateConverter m.charSigned 8 .int (uninit .int)
  | .signedChar => delegateConverter true 8 .int (uninit .int)
  | .short => delegateConverter true 16 .int (uninit .int)
  | .unsignedChar => delegateConverter false 8 .uint (uninit .uint)
  | .unsignedShort => delegateConverter false 16 .uint (uninit .uint)
  | .long => delegateConverter true (if m.long64 then 64 else 32) .int64 (uninit .int64)
  | .unsignedLong => delegateConverter false (if m.long64 then 64 else 32) .uint64 (uninit .uint64)

/-! ### Packing and unpacking -/

section Spec

variable {m : DataModel} {uninit : ∀ t : IntegerType, Ranged t.signed t.width}

theorem IntegralType.width_pos (t : IntegralType) : 0 < t.width m := by
  rcases m with ⟨- | -, - | -⟩ <;> cases t <;> decide

/-- The underlying type has every number of the type. -/
theorem IntegralType.underlying_range (t : IntegralType) :
    leastOf t.underlying.signed t.underlying.width ≤ leastOf (t.signed m) (t.width m) ∧
      greatestOf (t.signed m) (t.width m) ≤
        greatestOf t.underlying.signed t.underlying.width := by
  rcases m with ⟨- | -, - | -⟩ <;> cases t <;> decide

theorem IntegralType.inRange_underlying {t : IntegralType} {x : ℤ} (h : t.represents m x = true) :
    inRange t.underlying.signed t.underlying.width x = true := by
  obtain ⟨hleast, hgreatest⟩ := t.underlying_range (m := m)
  rw [IntegralType.represents, inRange_iff] at h
  rw [inRange_iff]
  omega

theorem IntegerType.width_pos (t : IntegerType) : 0 < t.width := by
  cases t <;> decide

/-- What unpacking an integer into a type of `w` bits by way of `t` comes to. -/
def unpackInteger (signed : Bool) (w : ℕ) (t : IntegerType) (dst : Ranged signed w) (x : ℤ) :
    Bool × Ranged signed w :=
  if inRange t.signed t.width x then (true, ⟨wrapTo signed w x, inRange_wrapTo signed w x⟩)
  else (false, dst)

theorem builtinConverter.unpack_integer (t : IntegerType) (dst : Ranged t.signed t.width) (x : ℤ) :
    (builtinConverter t).unpack dst (.integer x) = unpackInteger t.signed t.width t dst x := by
  show (if h : inRange t.signed t.width x then (true, ⟨x, h⟩) else (false, dst)) = _
  rw [unpackInteger]
  by_cases h : inRange t.signed t.width x = true
  · rw [dif_pos h, if_pos h]
    exact congrArg (Prod.mk true) (Subtype.ext (wrapTo_of_inRange t.width_pos h).symm)
  · rw [dif_neg h, if_neg h]

theorem delegateConverter.unpack_integer {signed : Bool} {w : ℕ} {t : IntegerType}
    (u dst : _) (x : ℤ) :
    (delegateConverter signed w t u).unpack dst (.integer x) = unpackInteger signed w t dst x := by
  show (if ((builtinConverter t).unpack u (.integer x)).1 then
    (true, staticCast signed w ((builtinConverter t).unpack u (.integer x)).2) else (false, dst)) = _
  rw [builtinConverter.unpack_integer, unpackInteger, unpackInteger]
  by_cases h : inRange t.signed t.width x = true
  · rw [if_pos h, if_pos h, if_pos rfl]
    refine congrArg (Prod.mk true) (Subtype.ext ?_)
    show wrapTo signed w (wrapTo t.signed t.width x) = wrapTo signed w x
    rw [wrapTo_of_inRange t.width_pos h]
  · rw [if_neg h, if_neg h]
    exact if_neg Bool.false_ne_true

theorem integralConverter.unpack_integer (t : IntegralType) (dst : Ranged (t.signed m) (t.width m))
    (x : ℤ) :
    (integralConverter m uninit t).unpack dst (.integer x) =
      unpackInteger (t.signed m) (t.width m) t.underlying dst x := by
  cases t with
  | int => exact builtinConverter.unpack_integer .int dst x
  | unsigned => exact builtinConverter.unpack_integer .uint dst x
  | int64 => exact builtinConverter.unpack_integer .int64 dst x
  | uint64 => exact builtinConverter.unpack_integer .uint64 dst x
  | char | signedChar | short | unsignedChar | unsignedShort | long | unsignedLong =>
    exact delegateConverter.unpack_integer _ dst x

theorem delegateConverter.pack_run {signed : Bool} {w : ℕ} {t : IntegerType} {u : _}
    {x : Ranged signed w} (h : inRange t.signed t.width x.1 = true) :
    (delegateConverter signed w t u).pack x = .ok (true, .integer x.1) := by
  show Except.ok (true, CciValue.integer (wrapTo t.signed t.width x.1)) = _
  rw [wrapTo_of_inRange t.width_pos h]

/-- Packing stores the number itself. -/
theorem integralConverter.pack_run (t : IntegralType) (x : Ranged (t.signed m) (t.width m)) :
    (integralConverter m uninit t).pack x = .ok (true, .integer x.1) := by
  have h := IntegralType.inRange_underlying (t := t) (m := m) x.2
  cases t with
  | int | unsigned | int64 | uint64 => rfl
  | char | signedChar | short | unsignedChar | unsignedShort | long | unsignedLong =>
    exact delegateConverter.pack_run h

end Spec

/-! ### Keeping the number -/

/-- Unpacking into `U` what packing `x` gives succeeds exactly when `x` is representable in `U`, and
then yields `x`. -/
def KeepsNumber (m : DataModel) (uninit : ∀ t : IntegerType, Ranged t.signed t.width)
    (T U : IntegralType) (x : Ranged (T.signed m) (T.width m)) : Prop :=
  ∃ c, (integralConverter m uninit T).pack x = .ok (true, c) ∧
    ∀ d, (((integralConverter m uninit U).unpack d c).1 = true ↔ U.represents m x.1 = true) ∧
      (U.represents m x.1 = true → ((integralConverter m uninit U).unpack d c).2.1 = x.1)

/-- **Integral conversion.**  The conversion from `T` to `U` keeps a number if and only if the number
is representable in `U` or not even in the type whose accessors `U` uses.  Whatever that type has is
converted with success, to the number that `U` has for it modulo `2^w`. -/
theorem integral_conversion (m : DataModel) (uninit : ∀ t : IntegerType, Ranged t.signed t.width)
    (T U : IntegralType) (x : Ranged (T.signed m) (T.width m)) :
    (KeepsNumber m uninit T U x ↔ U.represents m x.1 = true ∨
      inRange U.underlying.signed U.underlying.width x.1 = false) ∧
    (inRange U.underlying.signed U.underlying.width x.1 = true → ∃ c,
      (integralConverter m uninit T).pack x = .ok (true, c) ∧
        ∀ d, ((integralConverter m uninit U).unpack d c).1 = true ∧
          ((integralConverter m uninit U).unpack d c).2.1 =
            wrapTo (U.signed m) (U.width m) x.1) := by
  have hpack : (integralConverter m uninit T).pack x = .ok (true, .integer x.1) :=
    integralConverter.pack_run T x
  have hunpack : ∀ d, (integralConverter m uninit U).unpack d (.integer x.1) =
      unpackInteger (U.signed m) (U.width m) U.underlying d x.1 :=
    fun d => integralConverter.unpack_integer U d x.1
  cases hrange : inRange U.underlying.signed U.underlying.width x.1 with
  | false =>
    have hfails : ∀ d, (integralConverter m uninit U).unpack d (.integer x.1) = (false, d) := by
      intro d
      rw [hunpack, unpackInteger, hrange]
      exact if_neg Bool.false_ne_true
    have hno : ¬U.represents m x.1 = true := fun h => by
      rw [IntegralType.inRange_underlying h] at hrange
      cases hrange
    refine ⟨iff_of_true ⟨_, hpack, fun d => ⟨?_, fun h => absurd h hno⟩⟩ (.inr rfl), nofun⟩
    rw [hfails]
    exact iff_of_false Bool.false_ne_true hno
  | true =>
    have hruns : ∀ d, (integralConverter m uninit U).unpack d (.integer x.1) =
        (true, ⟨wrapTo (U.signed m) (U.width m) x.1, inRange_wrapTo _ _ _⟩) := by
      intro d
      rw [hunpack, unpackInteger, hrange, if_pos rfl]
    refine ⟨?_, fun _ => ⟨_, hpack, fun d => ?_⟩⟩
    · constructor
      · rintro ⟨c, hc, hkeeps⟩
        rw [hpack] at hc
        cases hc
        let d : Ranged (U.signed m) (U.width m) := ⟨wrapTo _ _ 0, inRange_wrapTo _ _ 0⟩
        exact .inl ((hkeeps d).1.1 (by rw [hruns]))
      · rintro (h | hfalse)
        · refine ⟨_, hpack, fun d => ⟨iff_of_true (by rw [hruns]) h, fun _ => ?_⟩⟩
          rw [hruns]
          exact wrapTo_of_inRange U.width_pos h
        · cases hfalse
    · rw [hruns]
      exact ⟨rfl, rfl⟩

/-- A platform with signed `char` and a `long` of 64 bits. -/
def DataModel.lp64 : DataModel := ⟨true, true⟩

def uninitZero (t : IntegerType) : Ranged t.signed t.width :=
  ⟨wrapTo t.signed t.width 0, inRange_wrapTo _ _ 0⟩

/-- The `int` 300, unpacked as a `signed char`. -/
theorem integral_conversion_300 :
    (KeepsNumber .lp64 uninitZero .int .signedChar ⟨300, by decide⟩ ↔
      IntegralType.signedChar.represents .lp64 300 = true ∨ inRange true 32 300 = false) ∧
    ∃ c, (integralConverter .lp64 uninitZero .int).pack ⟨300, by decide⟩ = .ok (true, c) ∧
      ∀ d, ((integralConverter .lp64 uninitZero .signedChar).unpack d c).1 = true ∧
        ((integralConverter .lp64 uninitZero .signedChar).unpack d c).2.1 = wrapTo true 8 300 :=
  ⟨(integral_conversion .lp64 uninitZero .int .signedChar ⟨300, by decide⟩).1,
    (integral_conversion .lp64 uninitZero .int .signedChar ⟨300, by decide⟩).2 (by decide)⟩

/-- The `int` 300 is packed and unpacked as the `signed char` 44. -/
theorem integral_conversion_changes :
    ¬KeepsNumber .lp64 uninitZero .int .signedChar ⟨300, by decide⟩ ∧
    (integralConverter .lp64 uninitZero .int).pack ⟨300, by decide⟩ = .ok (true, .integer 300) ∧
    ((integralConverter .lp64 uninitZero .signedChar).unpack ⟨0, by decide⟩ (.integer 300)).1 = true ∧
    ((integralConverter .lp64 uninitZero .signedChar).unpack ⟨0, by decide⟩ (.integer 300)).2.1 =
      44 := by
  refine ⟨?_, rfl, by decide, by decide⟩
  rintro ⟨c, hc, hkeeps⟩
  cases hc
  have htrue : IntegralType.signedChar.represents .lp64 300 = true :=
    (hkeeps ⟨0, by decide⟩).1.1 (by decide)
  exact absurd htrue (by decide)

end Cci
