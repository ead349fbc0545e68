import Cci.Core.VectorConverter

/-!
# Fixed-size arrays as values

`cci_value_converter<T[N]>` and `cci_value_converter<char[N]>`.  Both write into the destination
while it is still open whether the conversion succeeds.

* `arrayConverter`, with its loop, and `charArrayConverter`;
* `Converter.FaithfulAt` — what is unpacked packs to the source, a refusal leaves the destination;
* `leading` — the elements the loop accepts;
* `array_conversion` — when the two converters are faithful.
-/

namespace Cci

variable {T : Type}

/-! ### The converters -/

/-- `for (; i < N && i < lst.size() && lst[i].try_get<T>( dst[i] ); ++i ) {}` over the rest of `dst`
and of `lst` from `i` on; the answer is `i` and this rest of `dst`. -/
def arrayLoop (conv : Converter T) : List T → List CciValue → ℕ → ℕ × List T
  | d :: ds, e :: es, i =>
      let r := conv.unpack d e
      if r.1 then
        let q := arrayLoop conv ds es (i + 1)
        (q.1, r.2 :: q.2)
      else (i, r.2 :: ds)
  | ds, _, i => (i, ds)

theorem length_arrayLoop (conv : Converter T) (ds : List T) (es : List CciValue) (i : ℕ) :
    (arrayLoop conv ds es i).2.length = ds.length := by
  induction ds generalizing es i with
  | nil => rw [arrayLoop]; exact fun _ _ _ _ h => nomatch h
  | cons d ds ih =>
    cases es with
    | nil => rw [arrayLoop]; exact fun _ _ _ _ _ h => nomatch h
    | cons e es =>
      rw [arrayLoop]
      split
      · show (arrayLoop conv ds es (i + 1)).2.length + 1 = ds.length + 1
        rw [ih]
      · rfl

/-- `cci_value_converter<T[N]>`. -/
def arrayConverter (throws : Bool) (conv : Converter T) (N : ℕ) : Converter (Vector T N) where
  pack src := (pushAll conv throws src.toList []).map fun ret => (true, .list ret)
  unpack dst
    | .list lst =>
        let r := arrayLoop conv dst.toList lst 0
        (decide (r.1 = lst.length), ⟨r.2.toArray, by simp [r, length_arrayLoop]⟩)
    | _ => (false, dst)

/-- The C string that starts where a string's characters do: up to the first NUL. -/
def cString (str : List UInt8) : List UInt8 := str.takeWhile (· ≠ 0)

/-- `strncpy( dst, src, count )`, for a C string given without its NUL: what it leaves free of the
first `count` characters is filled with NULs. -/
def strncpy {N : ℕ} (dst : Vector UInt8 N) (src : List UInt8) (count : ℕ) : Vector UInt8 N :=
  Vector.ofFn fun j => if j.val < count then src.getD j.val 0 else dst[j]

/-- `cci_value_converter<char[N]>`, for `N = n + 1`. -/
def charArrayConverter (n : ℕ) : Converter (Vector UInt8 (n + 1)) where
  pack src := .ok (true, .string (cString src.toList))
  unpack dst
    | .null => (true, dst.set 0 0)
    | .string str => (decide (str.length ≤ n), (strncpy dst (cString str) n).set n 0)
    | _ => (false, dst)

/-! ### Faithful conversions -/

/-- An equality of values that compares strings by their characters and lists element by element. -/
structure ValueEquality (eq : CciValue → CciValue → Prop) : Prop where
  string_iff : ∀ a b, eq (.string a) (.string b) ↔ a = b
  list_iff : ∀ a b, eq (.list a) (.list b) ↔ List.Forall₂ eq a b

/-- If `unpack(d, s)` returns true, then packing `d` gives a value equal to `s`, and if it returns
false, `d` is unchanged. -/
def Converter.FaithfulAt (eq : CciValue → CciValue → Prop) (conv : Converter T) (d : T)
    (s : CciValue) : Prop :=
  ((conv.unpack d s).1 = true → ∃ c, conv.pack (conv.unpack d s).2 = .ok (true, c) ∧ eq c s) ∧
    ((conv.unpack d s).1 = false → (conv.unpack d s).2 = d)

namespace Converter.FaithfulAt

variable {eq : CciValue → CciValue → Prop} {conv : Converter T} {d : T} {s : CciValue}

theorem iff_of_accepted (h : (conv.unpack d s).1 = true) :
    conv.FaithfulAt eq d s ↔ ∃ c, conv.pack (conv.unpack d s).2 = .ok (true, c) ∧ eq c s := by
  refine ⟨fun hf => hf.1 h, fun hc => ⟨fun _ => hc, fun hfalse => ?_⟩⟩
  rw [h] at hfalse
  cases hfalse

theorem iff_of_refused (h : (conv.unpack d s).1 = false) :
    conv.FaithfulAt eq d s ↔ (conv.unpack d s).2 = d := by
  refine ⟨fun hf => hf.2 h, fun hd => ⟨fun htrue => ?_, fun _ => hd⟩⟩
  rw [h] at htrue
  cases htrue

/-- A refusal that leaves the destination is faithful. -/
theorem of_refused (h : conv.unpack d s = (false, d)) : conv.FaithfulAt eq d s := by
  rw [iff_of_refused (by rw [h])]
  rw [h]

end Converter.FaithfulAt

/-- The element is accepted at its place. -/
def Converter.accepts (conv : Converter T) (p : T × CciValue) : Bool := (conv.unpack p.1 p.2).1

/-- The places before the first refusal, each with what it holds and the element for it. -/
def leading (conv : Converter T) (ds : List T) (es : List CciValue) : List (T × CciValue) :=
  (ds.zip es).takeWhile conv.accepts

section Loop

variable {conv : Converter T} {d : T} {e : CciValue} {ds : List T} {es : List CciValue} {i : ℕ}

theorem arrayLoop_accepts (h : (conv.unpack d e).1 = true) :
    arrayLoop conv (d :: ds) (e :: es) i =
      ((arrayLoop conv ds es (i + 1)).1,
        (conv.unpack d e).2 :: (arrayLoop conv ds es (i + 1)).2) := by
  rw [arrayLoop]
  exact if_pos h

theorem arrayLoop_refuses (h : (conv.unpack d e).1 = false) :
    arrayLoop conv (d :: ds) (e :: es) i = (i, (conv.unpack d e).2 :: ds) := by
  rw [arrayLoop]
  exact if_neg (by rw [h]; exact Bool.false_ne_true)

theorem leading_accepts (h : (conv.unpack d e).1 = true) :
    leading conv (d :: ds) (e :: es) = (d, e) :: leading conv ds es :=
  List.takeWhile_cons_of_pos h

theorem leading_refuses (h : (conv.unpack d e).1 = false) :
    leading conv (d :: ds) (e :: es) = [] :=
  List.takeWhile_cons_of_neg (by show ¬(conv.unpack d e).1 = true; rw [h]; exact Bool.false_ne_true)

/-- The loop counts the accepted elements. -/
theorem arrayLoop_fst (ds : List T) (es : List CciValue) (i : ℕ) :
    (arrayLoop conv ds es i).1 = i + (leading conv ds es).length := by
  induction ds generalizing es i with
  | nil => rfl
  | cons d ds ih =>
    cases es with
    | nil => rfl
    | cons e es =>
      cases h : (conv.unpack d e).1 with
      | true =>
        rw [arrayLoop_accepts h, leading_accepts h, List.length_cons]
        show (arrayLoop conv ds es (i + 1)).1 = _
        rw [ih]
        omega
      | false =>
        rw [arrayLoop_refuses h, leading_refuses h]
        rfl

/-- The array is left as it was exactly if every accepted element is what its place held. -/
theorem arrayLoop_snd_eq (hsame : ∀ d e, (conv.unpack d e).1 = false → (conv.unpack d e).2 = d)
    (ds : List T) (es : List CciValue) (i : ℕ) :
    (arrayLoop conv ds es i).2 = ds ↔
      ∀ p ∈ leading conv ds es, (conv.unpack p.1 p.2).2 = p.1 := by
  induction ds generalizing es i with
  | nil => exact iff_of_true rfl fun p hp => nomatch hp
  | cons d ds ih =>
    cases es with
    | nil => exact iff_of_true rfl fun p hp => nomatch hp
    | cons e es =>
      cases h : (conv.unpack d e).1 with
      | true =>
        rw [arrayLoop_accepts h, leading_accepts h, List.forall_mem_cons, ← ih es (i + 1)]
        exact List.cons_eq_cons
      | false =>
        rw [arrayLoop_refuses h, leading_refuses h, hsame d e h]
        exact iff_of_true rfl fun p hp => nomatch hp

/-- As many elements are accepted as the list has if and only if the list is no longer than the
array and each is accepted. -/
theorem length_leading_eq :
    (leading conv ds es).length = es.length ↔
      es.length ≤ ds.length ∧ ∀ p ∈ ds.zip es, conv.accepts p = true := by
  have hle : (leading conv ds es).length ≤ (ds.zip es).length :=
    (List.takeWhile_prefix conv.accepts).length_le
  have hzip : (ds.zip es).length = min ds.length es.length := List.length_zip
  constructor
  · intro h
    refine ⟨by omega, List.takeWhile_eq_self_iff.1 ?_⟩
    apply (List.takeWhile_prefix conv.accepts).eq_of_length
    show (leading conv ds es).length = _
    omega
  · rintro ⟨hlength, hall⟩
    rw [leading, List.takeWhile_eq_self_iff.2 hall]
    omega

/-- Elements that are all accepted are what the array is filled with. -/
theorem arrayLoop_filled (hlength : ds.length = es.length)
    (hall : ∀ p ∈ ds.zip es, conv.accepts p = true) (i : ℕ) :
    List.Forall₂ (fun x e => ∃ d, conv.unpack d e = (true, x)) (arrayLoop conv ds es i).2 es := by
  induction ds generalizing es i with
  | nil =>
    rw [List.length_eq_zero_iff.1 hlength.symm]
    exact .nil
  | cons d ds ih =>
    cases es with
    | nil => cases hlength
    | cons e es =>
      rw [List.zip_cons_cons, List.forall_mem_cons] at hall
      have h : (conv.unpack d e).1 = true := hall.1
      rw [arrayLoop_accepts h]
      exact .cons ⟨d, Prod.ext h rfl⟩ (ih (Nat.succ.inj hlength) hall.2 (i + 1))

end Loop

/-! ### Arrays -/

theorem pushAll_length {conv : Converter T} {throws : Bool} {xs : List T} {ret cs : List CciValue}
    (h : pushAll conv throws xs ret = .ok cs) : cs.length = ret.length + xs.length := by
  induction xs generalizing ret with
  | nil =>
    rw [pushAll] at h
    cases h
    rfl
  | cons x xs ih =>
    rw [pushAll] at h
    cases hx : conv.cciValue throws x with
    | error e =>
      rw [hx] at h
      cases h
    | ok c =>
      rw [hx] at h
      have hlength : cs.length = (ret ++ [c]).length + xs.length := ih h
      rw [List.length_append, List.length_singleton] at hlength
      rw [List.length_cons]
      omega

namespace arrayConverter

variable {conv : Converter T} {throws : Bool} {N : ℕ} {eq : CciValue → CciValue → Prop}

/-- The list has the length of the array, and every element is accepted at its place. -/
def Fits (conv : Converter T) (d : Vector T N) (es : List CciValue) : Prop :=
  es.length = N ∧ ∀ p ∈ d.toList.zip es, conv.accepts p = true

/-- The list is too long or an element is refused, and the elements before the first refusal are
what the array holds at their places. -/
def RefusedInPlace (conv : Converter T) (d : Vector T N) (es : List CciValue) : Prop :=
  (N < es.length ∨ ∃ p ∈ d.toList.zip es, conv.accepts p = false) ∧
    ∀ p ∈ leading conv d.toList es, (conv.unpack p.1 p.2).2 = p.1

/-- The loop reaches the end of a list that is no longer than the array and whose elements are all
accepted. -/
theorem unpack_fst {d : Vector T N} {es : List CciValue} :
    ((arrayConverter throws conv N).unpack d (.list es)).1 = true ↔
      es.length ≤ N ∧ ∀ p ∈ d.toList.zip es, conv.accepts p = true := by
  have hlength : es.length ≤ N ↔ es.length ≤ d.toList.length := by rw [Vector.length_toList]
  rw [hlength, ← length_leading_eq]
  show decide ((arrayLoop conv d.toList es 0).1 = es.length) = true ↔ _
  rw [decide_eq_true_iff, arrayLoop_fst, Nat.zero_add]

theorem unpack_snd_toList {d : Vector T N} {es : List CciValue} :
    ((arrayConverter throws conv N).unpack d (.list es)).2.toList =
      (arrayLoop conv d.toList es 0).2 := rfl

/-- Packed elements form a list that is as long as the array. -/
theorem pack_length {src : Vector T N} {c : CciValue}
    (h : (arrayConverter throws conv N).pack src = .ok (true, c)) :
    ∃ cs : List CciValue, c = .list cs ∧ cs.length = N := by
  change (pushAll conv throws src.toList []).map _ = _ at h
  cases hpush : pushAll conv throws src.toList [] with
  | error e =>
    rw [hpush] at h
    cases h
  | ok cs =>
    rw [hpush] at h
    cases h
    exact ⟨cs, rfl, by rw [pushAll_length hpush, Vector.length_toList]; exact Nat.zero_add N⟩

theorem pack_filled {src : Vector T N} {es : List CciValue}
    (h : List.Forall₂ (fun x e => ∃ c, conv.pack x = .ok (true, c) ∧ eq c e) src.toList es) :
    ∃ cs, (arrayConverter throws conv N).pack src = .ok (true, .list cs) ∧
      List.Forall₂ eq cs es := by
  have hcs : ∃ cs, List.Forall₂ (fun x c => conv.pack x = .ok (true, c)) src.toList cs ∧
      List.Forall₂ eq cs es := by
    generalize src.toList = xs at h ⊢
    induction h with
    | nil => exact ⟨[], .nil, .nil⟩
    | @cons x e xs es hx _ ih =>
      obtain ⟨c, hc, heq⟩ := hx
      obtain ⟨cs, hcs, heqs⟩ := ih
      exact ⟨c :: cs, .cons hc hcs, .cons heq heqs⟩
  obtain ⟨cs, hpack, heqs⟩ := hcs
  refine ⟨cs, ?_, heqs⟩
  show (pushAll conv throws src.toList []).map _ = _
  rw [pushAll_packed hpack]
  rfl

/-- An array is converted faithfully from a list if and only if the list fits or is refused with
nothing overwritten. -/
theorem faithfulAt_list (heq : ValueEquality eq) (hconv : ∀ d s, conv.FaithfulAt eq d s)
    (d : Vector T N) (es : List CciValue) :
    (arrayConverter throws conv N).FaithfulAt eq d (.list es) ↔
      Fits conv d es ∨ RefusedInPlace conv d es := by
  have hsame : ((arrayConverter throws conv N).unpack d (.list es)).2 = d ↔
      ∀ p ∈ leading conv d.toList es, (conv.unpack p.1 p.2).2 = p.1 := by
    rw [← arrayLoop_snd_eq (fun d e => (hconv d e).2) d.toList es 0, ← Vector.toList_inj,
      unpack_snd_toList]
  by_cases haccepts : es.length ≤ N ∧ ∀ p ∈ d.toList.zip es, conv.accepts p = true
  · -- The answer is true: the packed array has `N` elements, so the list has to have as many.
    have htrue : ((arrayConverter throws conv N).unpack d (.list es)).1 = true :=
      unpack_fst.2 haccepts
    have hrefused : ¬RefusedInPlace conv d es := by
      rintro ⟨hlt | ⟨p, hp, hfalse⟩, -⟩
      · omega
      · rw [haccepts.2 p hp] at hfalse
        cases hfalse
    rw [or_iff_left hrefused, Converter.FaithfulAt.iff_of_accepted htrue]
    constructor
    · rintro ⟨c, hpack, hc⟩
      obtain ⟨cs, rfl, hlength⟩ := pack_length hpack
      exact ⟨by rw [← ((heq.list_iff cs es).1 hc).length_eq, hlength], haccepts.2⟩
    · rintro ⟨hlength, hall⟩
      have hlist : d.toList.length = es.length := by rw [Vector.length_toList, hlength]
      have hpacks : List.Forall₂ (fun x e => ∃ c, conv.pack x = .ok (true, c) ∧ eq c e)
          ((arrayConverter throws conv N).unpack d (.list es)).2.toList es :=
        (arrayLoop_filled hlist hall 0).imp fun x e ⟨d, hx⟩ => by
          have hfaithful := (hconv d e).1
          rw [hx] at hfaithful
          exact hfaithful rfl
      obtain ⟨cs, hpack, hcs⟩ := pack_filled hpacks
      exact ⟨.list cs, hpack, (heq.list_iff cs es).2 hcs⟩
  · -- The answer is false: nothing may have been overwritten.
    have hfalse : ((arrayConverter throws conv N).unpack d (.list es)).1 = false :=
      Bool.eq_false_iff.2 fun h => haccepts (unpack_fst.1 h)
    have hfits : ¬Fits conv d es := fun h => haccepts ⟨h.1.le, h.2⟩
    have hwhy : N < es.length ∨ ∃ p ∈ d.toList.zip es, conv.accepts p = false := by
      by_contra hno
      push Not at hno
      exact haccepts ⟨hno.1, fun p hp => Bool.ne_false_iff.1 (hno.2 p hp)⟩
    rw [or_iff_right hfits, Converter.FaithfulAt.iff_of_refused hfalse, hsame]
    exact ⟨fun hleading => ⟨hwhy, hleading⟩, fun h => h.2⟩

end arrayConverter

/-! ### Character arrays -/

namespace charArrayConverter

variable {n : ℕ} {eq : CciValue → CciValue → Prop}

theorem length_cString (str : List UInt8) : (cString str).length ≤ str.length :=
  (List.takeWhile_prefix _).length_le

theorem cString_eq_self {str : List UInt8} : cString str = str ↔ 0 ∉ str := by
  rw [cString, List.takeWhile_eq_self_iff]
  constructor
  · intro h hzero
    exact absurd rfl (of_decide_eq_true (h 0 hzero))
  · intro h x hx
    exact decide_eq_true fun hzero => h (hzero ▸ hx)

/-- The destination after a string has been copied into it. -/
theorem unpack_snd_getElem {d : Vector UInt8 (n + 1)} {str : List UInt8} {j : ℕ} (hj : j < n + 1) :
    ((charArrayConverter n).unpack d (.string str)).2[j] =
      if j < n then (cString str).getD j 0 else 0 := by
  show ((strncpy d (cString str) n).set n 0)[j] = _
  rw [Vector.getElem_set]
  split
  · rw [if_neg (by omega)]
  · have hlt : j < n := by omega
    rw [if_pos hlt, strncpy, Vector.getElem_ofFn]
    exact if_pos hlt

/-- A string that fits is followed by NULs. -/
theorem unpack_snd_toList {d : Vector UInt8 (n + 1)} {str : List UInt8}
    (h : (cString str).length ≤ n) :
    ((charArrayConverter n).unpack d (.string str)).2.toList =
      cString str ++ List.replicate (n + 1 - (cString str).length) 0 := by
  refine List.ext_getElem ?_ fun j hj hj' => ?_
  · rw [Vector.length_toList, List.length_append, List.length_replicate]
    omega
  · rw [Vector.length_toList] at hj
    rw [Vector.getElem_toList, unpack_snd_getElem hj, List.getElem_append]
    by_cases hchar : j < (cString str).length
    · rw [dif_pos hchar, if_pos (by omega), List.getD_eq_getElem]
    · rw [dif_neg hchar, List.getElem_replicate, List.getD_eq_default _ _ (by omega), ite_self]

/-- What has been copied is read back up to the first NUL. -/
theorem cString_unpack {d : Vector UInt8 (n + 1)} {str : List UInt8}
    (h : (cString str).length ≤ n) :
    cString ((charArrayConverter n).unpack d (.string str)).2.toList = cString str := by
  have hchars : ∀ x ∈ cString str, decide (x ≠ 0) = true := by
    intro x hx
    have hall : (cString str).all (fun c => decide (c ≠ 0)) = true := List.all_takeWhile
    exact List.all_eq_true.1 hall x hx
  rw [unpack_snd_toList h, cString, List.takeWhile_append_of_pos hchars, List.takeWhile_replicate]
  exact List.append_nil _

/-- The string fits, and no character of it is NUL. -/
def Fits (n : ℕ) (str : List UInt8) : Prop := str.length ≤ n ∧ 0 ∉ str

/-- The string is too long, and the array already holds what fits of its characters before the first
NUL, with NULs behind. -/
def RefusedInPlace (d : Vector UInt8 (n + 1)) (str : List UInt8) : Prop :=
  n < str.length ∧ ∀ j (_ : j < n + 1), d[j] = if j < n then (cString str).getD j 0 else 0

/-- An array of characters is converted faithfully from a string if and only if the string fits or
is refused with nothing overwritten. -/
theorem faithfulAt_string (heq : ValueEquality eq) (d : Vector UInt8 (n + 1)) (str : List UInt8) :
    (charArrayConverter n).FaithfulAt eq d (.string str) ↔ Fits n str ∨ RefusedInPlace d str := by
  have hfst : ((charArrayConverter n).unpack d (.string str)).1 = decide (str.length ≤ n) := rfl
  by_cases hlength : str.length ≤ n
  · have htrue : ((charArrayConverter n).unpack d (.string str)).1 = true := by
      rw [hfst, decide_eq_true hlength]
    have hrefused : ¬RefusedInPlace d str := fun h => absurd h.1 (by omega)
    have hpack : (charArrayConverter n).pack ((charArrayConverter n).unpack d (.string str)).2 =
        .ok (true, .string (cString str)) := by
      show Except.ok (true, CciValue.string (cString _)) = _
      rw [cString_unpack ((length_cString str).trans hlength)]
    rw [or_iff_left hrefused, Converter.FaithfulAt.iff_of_accepted htrue]
    constructor
    · rintro ⟨c, hc, hcs⟩
      rw [hpack] at hc
      cases hc
      exact ⟨hlength, cString_eq_self.1 ((heq.string_iff _ _).1 hcs)⟩
    · rintro ⟨-, hzero⟩
      exact ⟨_, hpack, (heq.string_iff _ _).2 (cString_eq_self.2 hzero)⟩
  · have hfalse : ((charArrayConverter n).unpack d (.string str)).1 = false := by
      rw [hfst, decide_eq_false hlength]
    have hfits : ¬Fits n str := fun h => hlength h.1
    rw [or_iff_right hfits, Converter.FaithfulAt.iff_of_refused hfalse]
    constructor
    · intro hsame
      refine ⟨by omega, fun j hj => ?_⟩
      have hj' : ((charArrayConverter n).unpack d (.string str)).2[j] = _ := unpack_snd_getElem hj
      simp only [hsame] at hj'
      exact hj'
    · rintro ⟨-, hsame⟩
      exact Vector.ext fun j hj => by rw [unpack_snd_getElem hj, hsame j hj]

end charArrayConverter

/-! ### Both kinds of array -/

theorem ValueEquality.structural : ValueEquality (· = ·) where
  string_iff _ _ := CciValue.string.injEq _ _ ▸ Iff.rfl
  list_iff a b := by rw [CciValue.list.injEq, List.forall₂_eq_eq_eq]

/-- **Array conversion.**  Let the conversion of the elements be faithful.  The conversion of a
value that is not null into an array `T[N]` is faithful if and only if the value is no list, or the
list has `N` elements and each is accepted at its place, or it is refused and the elements before the
first refusal are what the array holds already.  That into a `char[N]` is if and only if the value is
no string, or the string fits and has no NUL in it, or it is too long and the array holds already
what is copied. -/
theorem array_conversion {eq : CciValue → CciValue → Prop} (heq : ValueEquality eq) :
    (∀ {T : Type} (conv : Converter T), (∀ d s, conv.FaithfulAt eq d s) →
      ∀ (throws : Bool) (N : ℕ) (d : Vector T N) (s : CciValue), s ≠ .null →
        ((arrayConverter throws conv N).FaithfulAt eq d s ↔ ∀ es, s = .list es →
          arrayConverter.Fits conv d es ∨ arrayConverter.RefusedInPlace conv d es)) ∧
    ∀ (n : ℕ) (d : Vector UInt8 (n + 1)) (s : CciValue), s ≠ .null →
      ((charArrayConverter n).FaithfulAt eq d s ↔ ∀ str, s = .string str →
        charArrayConverter.Fits n str ∨ charArrayConverter.RefusedInPlace d str) := by
  constructor
  · intro T conv hconv throws N d s hs
    cases s with
    | list es =>
      rw [arrayConverter.faithfulAt_list heq hconv]
      exact ⟨fun h es' hes => by cases hes; exact h, fun h => h es rfl⟩
    | null => exact absurd rfl hs
    | bool _ | integer _ | double _ | string _ | map _ =>
      exact iff_of_true (.of_refused rfl) fun es hes => nomatch hes
  · intro n d s hs
    cases s with
    | string str =>
      rw [charArrayConverter.faithfulAt_string heq]
      exact ⟨fun h str' hstr => by cases hstr; exact h, fun h => h str rfl⟩
    | null => exact absurd rfl hs
    | bool _ | integer _ | double _ | list _ | map _ =>
      exact iff_of_true (.of_refused rfl) fun str hstr => nomatch hstr

theorem boolConverter.faithfulAt (d : Bool) (s : CciValue) :
    boolConverter.FaithfulAt (· = ·) d s := by
  cases s with
  | bool b => exact ⟨fun _ => ⟨.bool b, rfl, rfl⟩, fun hfalse => by cases hfalse⟩
  | null | integer _ | double _ | string _ | list _ | map _ => exact .of_refused rfl

/-- A list `[true]` for a `bool[2]`, and `"ab"` for a `char[3]`. -/
theorem array_conversion_pair :
    ((arrayConverter true boolConverter 2).FaithfulAt (· = ·) #v[false, false]
        (.list [.bool true]) ↔
      ∀ es, CciValue.list [.bool true] = .list es →
        arrayConverter.Fits boolConverter #v[false, false] es ∨
          arrayConverter.RefusedInPlace boolConverter #v[false, false] es) ∧
    ((charArrayConverter 2).FaithfulAt (· = ·) #v[120, 121, 0] (.string [97, 98]) ↔
      ∀ str, CciValue.string [97, 98] = .string str →
        charArrayConverter.Fits 2 str ∨ charArrayConverter.RefusedInPlace #v[120, 121, 0] str) :=
  ⟨(array_conversion ValueEquality.structural).1 boolConverter boolConverter.faithfulAt true 2
      #v[false, false] (.list [.bool true]) nofun,
    (array_conversion ValueEquality.structural).2 2 #v[120, 121, 0] (.string [97, 98]) nofun⟩

/-- The elements of a `bool[2]` are converted faithfully.  Yet `[true]` is accepted, and the array
packs to `[true, false]`; `[true, null]` is refused, and the array is overwritten.  A `char[3]`
accepts a string of one NUL and packs to the empty one; it refuses `"abc"` and holds `"ab"`. -/
theorem array_conversion_unfaithful :
    (∀ d s, boolConverter.FaithfulAt (· = ·) d s) ∧
    ¬(arrayConverter true boolConverter 2).FaithfulAt (· = ·) #v[false, false]
      (.list [.bool true]) ∧
    ¬(arrayConverter true boolConverter 2).FaithfulAt (· = ·) #v[false, false]
      (.list [.bool true, .null]) ∧
    ¬(charArrayConverter 2).FaithfulAt (· = ·) #v[120, 121, 0] (.string [0]) ∧
    ¬(charArrayConverter 2).FaithfulAt (· = ·) #v[120, 121, 0] (.string [97, 98, 99]) := by
  refine ⟨boolConverter.faithfulAt, fun h => ?_, fun h => ?_, fun h => ?_, fun h => ?_⟩
  · obtain ⟨c, hpack, hc⟩ := h.1 rfl
    have htwo : c = .list [.bool true, .bool false] :=
      (Prod.mk.inj (Except.ok.inj (hpack.symm.trans rfl))).2
    rw [htwo] at hc
    cases hc
  · have hsame : #v[true, false] = #v[false, false] := h.2 rfl
    exact absurd hsame (by decide)
  · obtain ⟨c, hpack, hc⟩ := h.1 rfl
    have hempty : c = .string [] := (Prod.mk.inj (Except.ok.inj (hpack.symm.trans rfl))).2
    rw [hempty] at hc
    cases hc
  · have hsame : (#v[97, 98, 0] : Vector UInt8 3) = #v[120, 121, 0] := h.2 rfl
    exact absurd hsame (by decide)

end Cci
