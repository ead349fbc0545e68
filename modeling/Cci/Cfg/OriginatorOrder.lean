import Cci.Cfg.Originator

/-!
# The order of originators

`operator<` makes `cci_originator` a key of ordered containers, which take incomparable keys for
one.  It compares the names only, while `operator==` compares the SystemC objects where there is one.

* `strcmp` — of two C strings, by their bytes;
* `CciOriginator.lt` — `operator<`, a strict weak order among any originators;
* `Coherent` — what is asked of the two operators among some originators;
* `coherent_iff` — when they are coherent.
-/

namespace Cci

open Std

/-! ### `strcmp` -/

/-- `std::strcmp`: the first bytes that differ, as `unsigned char`, decide; a string that ends where
the other goes on is below it. -/
def strcmp (s t : String) : Ordering :=
  compare s.toByteArray.data.toList t.toByteArray.data.toList

instance : TransCmp strcmp where
  eq_swap := OrientedOrd.eq_swap (α := List UInt8)
  isLE_trans := TransOrd.isLE_trans (α := List UInt8)

instance : LawfulEqCmp strcmp where
  compare_self := ReflOrd.compare_self (α := List UInt8)
  eq_of_compare h := String.toByteArray_inj.1
    (ByteArray.ext (Array.toList_inj.1 (LawfulEqOrd.eq_of_compare h)))

namespace CciOriginator

/-! ### `operator<` -/

/-- `operator<`. -/
def lt (a b : CciOriginator) : Bool := (strcmp a.name b.name).isLT

theorem lt_iff {a b : CciOriginator} : lt a b = true ↔ strcmp a.name b.name = .lt :=
  Ordering.isLT_iff_eq_lt

/-- Originators are incomparable when their names are the same. -/
theorem not_lt_iff {a b : CciOriginator} :
    (¬lt a b = true ∧ ¬lt b a = true) ↔ a.name = b.name := by
  have heq : strcmp a.name b.name = .eq ↔ a.name = b.name := LawfulEqCmp.compare_eq_iff_eq
  have hswap : strcmp b.name a.name = (strcmp a.name b.name).swap := OrientedCmp.eq_swap
  rw [← heq, lt_iff, lt_iff, hswap]
  cases strcmp a.name b.name <;> decide

/-- Whatever the originators are, `operator<` is a strict weak order. -/
instance : IsStrictWeakOrder CciOriginator fun a b => lt a b = true where
  irrefl a := (not_lt_iff.2 rfl).1
  trans a b c hab hbc := by
    rw [lt_iff] at hab hbc ⊢
    exact TransCmp.lt_trans hab hbc
  incomp_trans a b c hab hbc := not_lt_iff.2 ((not_lt_iff.1 hab).trans (not_lt_iff.1 hbc))

/-! ### Coherence -/

/-- The SystemC objects to which originators of `P` are bound have names of their own. -/
def DistinctNames (P : Set CciOriginator) : Prop :=
  ∀ ⦃o o' : ScObject⦄, object o ∈ P → object o' ∈ P →
    (o.addr = o'.addr ↔ cStr o.name = cStr o'.name)

/-- Among the originators of `P`, `operator==` is an equivalence, `operator<` a strict weak order,
and two are incomparable, one key of an ordered container, exactly if they are equal. -/
structure Coherent (P : Set CciOriginator) : Prop where
  equivalence : Equivalence fun a b : P => (a.1 == b.1) = true
  strictWeakOrder : IsStrictWeakOrder P fun a b => lt a.1 b.1 = true
  incomparable_iff : ∀ a b : P, (¬lt a.1 b.1 = true ∧ ¬lt b.1 a.1 = true) ↔ (a.1 == b.1) = true

/-- An originator without an object equals none that is bound to one. -/
theorem bound_beq_unbound {a b : CciOriginator} (ha : a.getObject.isSome = true)
    (hb : b.getObject.isSome = false) : (a == b) = false := by
  obtain ⟨addr, ha⟩ := Option.isSome_iff_exists.1 ha
  rw [Option.isSome_eq_false_iff, Option.isNone_iff_eq_none] at hb
  rw [beq_def, eq, ha, hb]
  rfl

/-- Without objects the names are compared. -/
theorem unbound_beq_iff {a b : CciOriginator} (ha : a.getObject.isSome = false)
    (hb : b.getObject.isSome = false) : (a == b) = true ↔ a.name = b.name := by
  rw [beq_def, eq, ha, hb, Bool.or_self, if_neg Bool.false_ne_true, beq_iff_eq]

/-- With two objects of distinct names the names could as well be. -/
theorem bound_beq_iff {P : Set CciOriginator} (hP : DistinctNames P) {a b : CciOriginator}
    (haP : a ∈ P) (hbP : b ∈ P) (ha : a.getObject.isSome = true) (hb : b.getObject.isSome = true) :
    (a == b) = true ↔ a.name = b.name := by
  cases a with
  | unknown | named _ => cases ha
  | object o =>
    cases b with
    | unknown | named _ => cases hb
    | object o' =>
      rw [← show o.addr = o'.addr ↔ (object o).name = (object o').name from hP haP hbP, beq_iff_key]
      simp [key, getObject]

/-- **The order and the equality of originators.**  They are coherent among originators whose
SystemC objects have names of their own exactly if no originator without an object carries the name
of one that is bound. -/
theorem coherent_iff {P : Set CciOriginator} (hP : DistinctNames P) :
    Coherent P ↔ ∀ a ∈ P, ∀ b ∈ P, a.getObject.isSome = true → b.getObject.isSome = false →
      a.name ≠ b.name := by
  constructor
  · intro h a ha b hb hbound hunbound hname
    have heq := (h.incomparable_iff ⟨a, ha⟩ ⟨b, hb⟩).1 (not_lt_iff.2 hname)
    rw [bound_beq_unbound hbound hunbound] at heq
    cases heq
  · intro h
    refine ⟨⟨fun _ => BEq.rfl, BEq.symm, BEq.trans⟩, ?_, fun ⟨a, ha⟩ ⟨b, hb⟩ => ?_⟩
    · exact inferInstanceAs (IsStrictWeakOrder P (Order.Preimage Subtype.val fun a b => lt a b = true))
    · show (¬lt a b = true ∧ ¬lt b a = true) ↔ (a == b) = true
      rw [not_lt_iff]
      cases hba : a.getObject.isSome <;> cases hbb : b.getObject.isSome
      · exact (unbound_beq_iff hba hbb).symm
      · rw [BEq.comm, bound_beq_unbound hbb hba]
        exact iff_of_false (fun hname => h b hb a ha hbb hba hname.symm) Bool.false_ne_true
      · rw [bound_beq_unbound hba hbb]
        exact iff_of_false (h a ha b hb hba hbb) Bool.false_ne_true
      · exact (bound_beq_iff hP ha hb hba hbb).symm

/-- A SystemC module. -/
def topObject : ScObject := ⟨1, "top"⟩

theorem topObject_distinct {b : CciOriginator} (hb : b.getObject = none) :
    DistinctNames {object topObject, b} := by
  have honly : ∀ {o : ScObject}, object o ∈ ({object topObject, b} : Set CciOriginator) →
      o = topObject := by
    rintro o (ho | ho)
    · exact CciOriginator.object.inj ho
    · rw [← show object o = b from ho] at hb
      cases hb
  intro o o' ho ho'
  rw [honly ho, honly ho']
  exact iff_of_true rfl rfl

theorem coherent_iff_top : Coherent {object topObject, unknown} :=
  (coherent_iff (topObject_distinct rfl)).2 (by
    rintro a (rfl | rfl) b (rfl | rfl) ha hb
    · cases hb
    · decide
    · cases ha
    · cases ha)

/-- A module and an originator named by its name are incomparable and not equal. -/
theorem incomparable_not_equal : ¬∀ P : Set CciOriginator, DistinctNames P → Coherent P := by
  intro h
  have hcoherent := h {object topObject, named "top"} (topObject_distinct rfl)
  have heq := (hcoherent.incomparable_iff ⟨object topObject, .inl rfl⟩ ⟨named "top", .inr rfl⟩).1
    (not_lt_iff.2 rfl)
  cases heq

end CciOriginator

end Cci
