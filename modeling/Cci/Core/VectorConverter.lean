import Cci.Core.Value

/-!
# Vectors as values

`cci_value_converter< std::vector<T,Alloc> >`: a vector is packed as the list of its packed
elements, and unpacked through one element variable that is used again and again.

* `vectorConverter`, with its two loops;
* `Converter.RoundTrips` — what is packed unpacks to itself, into any destination;
* `Reads` — a list is read element by element through one variable;
* `Converter.Plain` — what is unpacked does not depend on the destination;
* `NestedVector`, `Converter.nested` — vectors of vectors, to any depth;
* `vector_conversion` — packing loses nothing, unpacking takes all or nothing.
-/

namespace Cci

variable {T : Type}

/-! ### The converter -/

/-- `for (i = 0; i < src.size(); ++i) ret.push_back( src[i] )`: each element by way of a temporary
`cci_value`. -/
def pushAll (conv : Converter T) (throws : Bool) :
    List T → List CciValue → Except Report (List CciValue)
  | [], ret => .ok ret
  | x :: xs, ret =>
      match conv.cciValue throws x with
      | .error e => .error e
      | .ok c => pushAll conv throws xs (ret ++ [c])

/-- `for (; i < lst.size() && lst[i].try_get(cur); ++i) ret.push_back( cur )` over the rest of `lst`
from `i` on; the answer is `i` and `ret`. -/
def unpackLoop (conv : Converter T) : List CciValue → T → List T → ℕ → ℕ × List T
  | [], _, ret, i => (i, ret)
  | e :: es, cur, ret, i =>
      let r := conv.unpack cur e
      if r.1 then unpackLoop conv es r.2 (ret ++ [r.2]) (i + 1) else (i, ret)

/-- `cci_value_converter< std::vector<T,Alloc> >`; `uninit` is the value of `T cur;`. -/
def vectorConverter (throws : Bool) (uninit : T) (conv : Converter T) : Converter (List T) where
  pack src := (pushAll conv throws src []).map fun ret => (true, .list ret)
  unpack dst
    | .list lst =>
        let r := unpackLoop conv lst uninit [] 0
        if r.1 = lst.length then (true, r.2) else (false, dst)
    | _ => (false, dst)

/-! ### Reading a list through one variable -/

/-- `unpack(pack(x)) = x`, whatever the destination holds. -/
def Converter.RoundTrips (conv : Converter T) : Prop :=
  ∀ x, ∃ c, conv.pack x = .ok (true, c) ∧ ∀ d, conv.unpack d c = (true, x)

/-- Whether a value can be unpacked, and what it then unpacks to, does not depend on the
destination. -/
def Converter.Plain (conv : Converter T) : Prop :=
  ∀ d d' c, (conv.unpack d c).1 = (conv.unpack d' c).1 ∧
    ((conv.unpack d c).1 = true → (conv.unpack d c).2 = (conv.unpack d' c).2)

/-- The elements unpack one after the other, each into the variable that holds the one before. -/
inductive Reads (conv : Converter T) : T → List CciValue → List T → Prop where
  | nil (cur : T) : Reads conv cur [] []
  | cons {cur x : T} {e : CciValue} {es : List CciValue} {xs : List T} :
      conv.unpack cur e = (true, x) → Reads conv x es xs → Reads conv cur (e :: es) (x :: xs)

namespace Reads

variable {conv : Converter T} {cur : T} {es : List CciValue} {xs ys : List T}

theorem unique (h : Reads conv cur es xs) (h' : Reads conv cur es ys) : xs = ys := by
  induction h generalizing ys with
  | nil =>
    cases h'
    rfl
  | cons he _ ih =>
    cases h' with
    | cons he' h' =>
      obtain ⟨-, rfl⟩ := Prod.mk.inj (he.symm.trans he')
      rw [ih h']

/-- For a converter that looks at its source alone, every element unpacks on its own. -/
theorem iff_forall₂ (hplain : conv.Plain) :
    Reads conv cur es xs ↔ List.Forall₂ (fun e x => ∀ d, conv.unpack d e = (true, x)) es xs := by
  constructor
  · intro h
    induction h with
    | nil => exact .nil
    | @cons cur x e es xs he _ ih =>
      refine .cons (fun d => ?_) ih
      obtain ⟨hfst, hsnd⟩ := hplain cur d e
      rw [he] at hfst hsnd
      exact Prod.ext hfst.symm (hsnd rfl).symm
  · intro h
    induction h generalizing cur with
    | nil => exact .nil cur
    | cons he _ ih => exact .cons (he cur) ih

/-- The loop reaches the end of the list if and only if all of it can be read. -/
theorem loop (conv : Converter T) (es : List CciValue) (cur : T) (ret : List T) (i : ℕ) :
    (∃ xs, Reads conv cur es xs ∧
        unpackLoop conv es cur ret i = (i + es.length, ret ++ xs)) ∨
      ((∀ xs, ¬Reads conv cur es xs) ∧ (unpackLoop conv es cur ret i).1 < i + es.length) := by
  induction es generalizing cur ret i with
  | nil => exact .inl ⟨[], .nil cur, by rw [unpackLoop, List.append_nil]; rfl⟩
  | cons e es ih =>
    have hstep : unpackLoop conv (e :: es) cur ret i =
        if (conv.unpack cur e).1 then
          unpackLoop conv es (conv.unpack cur e).2 (ret ++ [(conv.unpack cur e).2]) (i + 1)
        else (i, ret) := rfl
    cases he : (conv.unpack cur e).1 with
    | false =>
      rw [hstep, he]
      refine .inr ⟨fun xs h => ?_, ?_⟩
      · cases h with
        | cons he' _ =>
          rw [he'] at he
          cases he
      · show i < i + (es.length + 1)
        omega
    | true =>
      have hunpack : conv.unpack cur e = (true, (conv.unpack cur e).2) := Prod.ext he rfl
      have hlength : i + 1 + es.length = i + (e :: es).length := by
        rw [List.length_cons]
        omega
      rw [hstep, he, if_pos rfl]
      rcases ih (conv.unpack cur e).2 (ret ++ [(conv.unpack cur e).2]) (i + 1) with
        ⟨xs, hxs, hrun⟩ | ⟨hno, hlt⟩
      · refine .inl ⟨(conv.unpack cur e).2 :: xs, .cons hunpack hxs, ?_⟩
        rw [hrun, hlength, List.append_assoc, List.singleton_append]
      · refine .inr ⟨fun xs h => ?_, by omega⟩
        cases h with
        | @cons _ x _ _ xs he' hxs =>
          rw [he'] at hno
          exact hno xs hxs

end Reads

/-! ### Packing and unpacking -/

/-- The elements are packed in their order. -/
theorem pushAll_run {conv : Converter T} {throws : Bool} {xs : List T} {cs : List CciValue}
    (h : List.Forall₂ (fun x c => conv.cciValue throws x = .ok c) xs cs) (ret : List CciValue) :
    pushAll conv throws xs ret = .ok (ret ++ cs) := by
  induction h generalizing ret with
  | nil => rw [pushAll, List.append_nil]
  | @cons x c xs cs hx _ ih =>
    rw [pushAll, hx]
    show pushAll conv throws xs (ret ++ [c]) = _
    rw [ih, List.append_assoc, List.singleton_append]

theorem Converter.cciValue_of_pack {conv : Converter T} {throws : Bool} {x : T} {c : CciValue}
    (h : conv.pack x = .ok (true, c)) : conv.cciValue throws x = .ok c := by
  rw [Converter.cciValue, h]

theorem pushAll_packed {conv : Converter T} {throws : Bool} {xs : List T} {cs : List CciValue}
    (h : List.Forall₂ (fun x c => conv.pack x = .ok (true, c)) xs cs) :
    pushAll conv throws xs [] = .ok cs :=
  pushAll_run (h.imp fun _ _ => Converter.cciValue_of_pack) []

namespace vectorConverter

variable {conv : Converter T} {throws : Bool} {uninit : T}

theorem pack_run {v : List T} {cs : List CciValue}
    (h : List.Forall₂ (fun x c => conv.pack x = .ok (true, c)) v cs) :
    (vectorConverter throws uninit conv).pack v = .ok (true, .list cs) := by
  show (pushAll conv throws v []).map _ = _
  rw [pushAll_packed h]
  rfl

/-- A list that can be read unpacks to what is read. -/
theorem unpack_reads {es : List CciValue} {xs : List T} (h : Reads conv uninit es xs) (d : List T) :
    (vectorConverter throws uninit conv).unpack d (.list es) = (true, xs) := by
  rcases Reads.loop conv es uninit [] 0 with ⟨ys, hys, hrun⟩ | ⟨hno, -⟩
  · show (if (unpackLoop conv es uninit [] 0).1 = es.length then _ else _) = _
    rw [hrun, if_pos (by omega), List.nil_append, h.unique hys]
  · exact absurd h (hno xs)

/-- Anything else is refused, and the destination is as it was. -/
theorem unpack_fails {s : CciValue} (h : ∀ es xs, s = .list es → ¬Reads conv uninit es xs)
    (d : List T) : (vectorConverter throws uninit conv).unpack d s = (false, d) := by
  cases s with
  | list es =>
    rcases Reads.loop conv es uninit [] 0 with ⟨xs, hxs, -⟩ | ⟨-, hlt⟩
    · exact absurd hxs (h es xs rfl)
    · show (if (unpackLoop conv es uninit [] 0).1 = es.length then _ else _) = _
      rw [if_neg (by omega)]
  | null | bool _ | integer _ | double _ | string _ | map _ => rfl

/-- Packed elements can be read, through whatever variable. -/
theorem reads_packed (hconv : conv.RoundTrips) (v : List T) :
    ∃ cs, List.Forall₂ (fun x c => conv.pack x = .ok (true, c)) v cs ∧
      ∀ cur, Reads conv cur cs v := by
  induction v with
  | nil => exact ⟨[], .nil, .nil⟩
  | cons x v ih =>
    obtain ⟨c, hpack, hunpack⟩ := hconv x
    obtain ⟨cs, hcs, hreads⟩ := ih
    exact ⟨c :: cs, .cons hpack hcs, fun cur => .cons (hunpack cur) (hreads x)⟩

theorem roundTrips (hconv : conv.RoundTrips) : (vectorConverter throws uninit conv).RoundTrips := by
  intro v
  obtain ⟨cs, hcs, hreads⟩ := reads_packed hconv v
  exact ⟨.list cs, pack_run hcs, unpack_reads (hreads uninit)⟩

/-- The destination of a vector is never looked at. -/
theorem plain : (vectorConverter throws uninit conv).Plain := by
  intro d d' s
  by_cases h : ∃ es xs, s = .list es ∧ Reads conv uninit es xs
  · obtain ⟨es, xs, rfl, hxs⟩ := h
    rw [unpack_reads hxs, unpack_reads hxs]
    exact ⟨rfl, fun _ => rfl⟩
  · have hno : ∀ es xs, s = .list es → ¬Reads conv uninit es xs :=
      fun es xs hs hxs => h ⟨es, xs, hs, hxs⟩
    rw [unpack_fails hno, unpack_fails hno]
    exact ⟨rfl, fun hfalse => absurd hfalse Bool.false_ne_true⟩

end vectorConverter

/-! ### Nested vectors -/

/-- Vectors of vectors of `T`, `n` deep. -/
def NestedVector (T : Type) : ℕ → Type
  | 0 => T
  | n + 1 => List (NestedVector T n)

/-- The value of an element variable that is declared and not assigned: a vector is empty. -/
def NestedVector.uninit (uninit : T) : (n : ℕ) → NestedVector T n
  | 0 => uninit
  | _ + 1 => []

def Converter.nested (throws : Bool) (uninit : T) (conv : Converter T) :
    (n : ℕ) → Converter (NestedVector T n)
  | 0 => conv
  | n + 1 => vectorConverter throws (NestedVector.uninit uninit n) (conv.nested throws uninit n)

theorem Converter.RoundTrips.nested {conv : Converter T} (h : conv.RoundTrips) (throws : Bool)
    (uninit : T) (n : ℕ) : (conv.nested throws uninit n).RoundTrips := by
  induction n with
  | zero => exact h
  | succ n ih => exact vectorConverter.roundTrips ih

theorem Converter.Plain.nested {conv : Converter T} (h : conv.Plain) (throws : Bool) (uninit : T)
    (n : ℕ) : (conv.nested throws uninit n).Plain := by
  cases n with
  | zero => exact h
  | succ n => exact vectorConverter.plain

/-- **Vector conversion.**  Let `unpack(pack(x)) = x` for the elements, which may be vectors
themselves.  Packing a vector gives the list of its packed elements in order, which unpacks to the
vector.  Unpacking returns true exactly for the lists whose elements unpack, the destination then
holds these in order, and when it returns false the destination is unchanged.  For converters that
look at their source alone, the elements unpack each on its own. -/
theorem vector_conversion {conv : Converter T} (hconv : conv.RoundTrips) (throws : Bool)
    (uninit : T) (n : ℕ) :
    let elem := conv.nested throws uninit n
    let vec := conv.nested throws uninit (n + 1)
    let cur := NestedVector.uninit uninit n
    (∀ v : List (NestedVector T n), ∃ cs,
      List.Forall₂ (fun x c => elem.pack x = .ok (true, c)) v cs ∧
        vec.pack v = .ok (true, .list cs) ∧ ∀ d, vec.unpack d (.list cs) = (true, v)) ∧
    (∀ (d : List (NestedVector T n)) (s : CciValue),
      ((vec.unpack d s).1 = true ↔ ∃ es xs, s = .list es ∧ Reads elem cur es xs) ∧
      (∀ es xs, s = .list es → Reads elem cur es xs → vec.unpack d s = (true, xs)) ∧
      ((vec.unpack d s).1 = false → (vec.unpack d s).2 = d)) ∧
    (elem.Plain → ∀ es xs, Reads elem cur es xs ↔
      List.Forall₂ (fun e x => ∀ d, elem.unpack d e = (true, x)) es xs) := by
  intro elem vec cur
  have helem : elem.RoundTrips := hconv.nested throws uninit n
  refine ⟨fun v => ?_, fun d s => ?_, fun hplain es xs => Reads.iff_forall₂ hplain⟩
  · obtain ⟨cs, hcs, hreads⟩ := vectorConverter.reads_packed helem v
    exact ⟨cs, hcs, vectorConverter.pack_run hcs, vectorConverter.unpack_reads (hreads cur)⟩
  · by_cases h : ∃ es xs, s = .list es ∧ Reads elem cur es xs
    · obtain ⟨es, xs, rfl, hxs⟩ := h
      have hrun : vec.unpack d (.list es) = (true, xs) := vectorConverter.unpack_reads hxs d
      refine ⟨iff_of_true (by rw [hrun]) ⟨es, xs, rfl, hxs⟩, fun es' xs' hs hxs' => ?_,
        fun hfalse => ?_⟩
      · cases hs
        rw [hrun, hxs.unique hxs']
      · rw [hrun] at hfalse
        cases hfalse
    · have hrun : vec.unpack d s = (false, d) :=
        vectorConverter.unpack_fails (fun es xs hs hxs => h ⟨es, xs, hs, hxs⟩) d
      refine ⟨iff_of_false (by rw [hrun]; exact Bool.false_ne_true) h, fun es xs hs hxs => ?_,
        fun _ => ?_⟩
      · exact absurd ⟨es, xs, hs, hxs⟩ h
      · rw [hrun]

/-- `cci_value_converter<bool>`. -/
def boolConverter : Converter Bool where
  pack src := .ok (true, .bool src)
  unpack dst
    | .bool b => (true, b)
    | _ => (false, dst)

/-- Vectors of vectors of `bool`. -/
theorem vector_conversion_bool :
    let elem := boolConverter.nested true false 1
    let vec := boolConverter.nested true false 2
    (∀ v : List (List Bool), ∃ cs, List.Forall₂ (fun x c => elem.pack x = .ok (true, c)) v cs ∧
      vec.pack v = .ok (true, .list cs) ∧ ∀ d, vec.unpack d (.list cs) = (true, v)) ∧
    (∀ (d : List (List Bool)) (s : CciValue),
      ((vec.unpack d s).1 = true ↔ ∃ es xs, s = .list es ∧ Reads elem [] es xs) ∧
      (∀ es xs, s = .list es → Reads elem [] es xs → vec.unpack d s = (true, xs)) ∧
      ((vec.unpack d s).1 = false → (vec.unpack d s).2 = d)) ∧
    (elem.Plain → ∀ es xs, Reads elem [] es xs ↔
      List.Forall₂ (fun e x => ∀ d, elem.unpack d e = (true, x)) es xs) :=
  vector_conversion (fun x => ⟨.bool x, rfl, fun _ => rfl⟩) true false 1

end Cci
