import Cci.Core.ArrayConverter
import Cci.Lib.EraseLoop
import Cci.Lib.Traversal

/-!
# Maps

The operations of `cci_value_map_cref` and `cci_value_map_ref`.  A map is the list of its members, in
which a key may occur more than once.

* `RapidJson`, `RapidJson.Documented` — what the maps use of the JSON library;
* `KeyArg` — a key as a `std::string` or as a C string;
* `doLookup`, `doFind`, `doErase`, `doPush`, and the functions over them;
* `Consistent`, `map_consistent` — when the operations agree on which entries a key has;
* `push_entry_exact` — when an entry is stored under the given key.
-/

namespace Cci

open Effect Traversal

/-- The members of a JSON object, in their order.  The lengths of names stay in the range of the
library's `SizeType`. -/
abbrev Members := List (List UInt8 × CciValue)

/-- The overloads of `FindMember`: for a JSON string, which has a length, and for a `const Ch*`. -/
inductive JsonName where
  | string : List UInt8 → JsonName
  | pointer : List UInt8 → JsonName

/-- The name that is looked for. -/
def JsonName.chars : JsonName → List UInt8
  | .string name => name
  | .pointer str => cString str

/-- The operations on members of the JSON library.  A member iterator is a position, and `MemberEnd` is
the number of members. -/
structure RapidJson where
  findMember : JsonName → Members → ℕ
  addMember : List UInt8 → CciValue → Members → Members
  eraseMember : ℕ → Members → Members

/-- The member has this name. -/
def hasName (name : List UInt8) (m : List UInt8 × CciValue) : Bool := m.1 == name

/-- `FindMember` finds the first member with an equal name, `AddMember` appends one, and `EraseMember`
removes one and keeps the order of the others. -/
structure RapidJson.Documented (J : RapidJson) : Prop where
  findMember : ∀ name ms, J.findMember name ms = ms.findIdx (hasName name.chars)
  addMember : ∀ name value ms, J.addMember name value ms = ms ++ [(name, value)]
  eraseMember : ∀ it ms, it < ms.length → J.eraseMember it ms = ms.eraseIdx it

/-- `std::strlen`. -/
def strlen (str : List UInt8) : ℕ := (cString str).length

/-- A key argument: a `std::string`, or a `const char*` to the given characters and a NUL. -/
inductive KeyArg where
  | string : List UInt8 → KeyArg
  | pointer : List UInt8 → KeyArg

namespace KeyArg

/-- `key.c_str()`, or the pointer. -/
def chars : KeyArg → List UInt8
  | .string key | .pointer key => key

/-- The `keylen` passed on: `key.length()`, or `strlen(key)`. -/
def keylen : KeyArg → ℕ
  | .string key => key.length
  | .pointer key => strlen key

/-- The key that is meant. -/
def key : KeyArg → List UInt8
  | .string key => key
  | .pointer key => cString key

theorem take_chars (k : KeyArg) : k.chars.take k.keylen = k.key := by
  cases k with
  | string key => exact List.take_length
  | pointer key =>
    have hprefix : cString key <+: key := List.takeWhile_prefix _
    exact (List.prefix_iff_eq_take.1 hprefix).symm

end KeyArg

namespace CciValueMap

variable (J : RapidJson) (throws : Bool)

/-! ### Lookups -/

/-- `lookup_mode`. -/
inductive LookupMode where
  | keyRequired | keyOptional | keyCreate
deriving DecidableEq, Repr

/-- `report_error`. -/
def reportError (msg : String) : Eff Report Members Unit :=
  if throws then Eff.raise (cciValueFailure msg) else pure ()

/-- `sc_assert`. -/
def scAssert (cond : Bool) : Eff Report Members Unit := if cond then pure () else Eff.abort

/-- A C string in a message, its bytes as characters. -/
def message (str : List UInt8) : String :=
  String.ofList ((cString str).map fun b => Char.ofNat b.toNat)

/-- `do_lookup`: the position of the entry whose value is returned, or nothing for NULL. -/
def doLookup (key : List UInt8) (keylen : ℕ) (mode : LookupMode) :
    Eff Report Members (Option ℕ) := do
  let kv := JsonName.string (key.take keylen)
  let ms ← Eff.get
  let it := J.findMember kv ms
  if it ≠ ms.length then pure (some it)
  else
    match mode with
    | .keyOptional => pure none
    | .keyCreate => do
        Eff.modify (J.addMember (key.take keylen) .null)
        let ms ← Eff.get
        let it := J.findMember kv ms
        scAssert (it ≠ ms.length)
        pure (some it)
    | .keyRequired => do
        reportError throws ("cci_value map has no element with key '" ++ message key ++ "'")
        pure none

/-- `do_find`: of the `StringRef(key, keylen)` it passes to `FindMember`, which has no overload for one,
the conversion to `const Ch*` leaves the pointer. -/
def doFind (key : List UInt8) (_keylen : ℕ) : Eff Report Members ℕ :=
  Eff.gets (J.findMember (.pointer key))

/-- `has_entry(key)`. -/
def hasEntry (k : KeyArg) : Eff Report Members Bool := do
  let value ← doLookup J throws k.chars k.keylen .keyOptional
  pure value.isSome

/-- `at(key)`. -/
def «at» (k : KeyArg) : Eff Report Members (Option ℕ) :=
  doLookup J throws k.chars k.keylen .keyRequired

/-- `operator[](key)`. -/
def subscript (k : KeyArg) : Eff Report Members (Option ℕ) :=
  doLookup J throws k.chars k.keylen .keyCreate

/-- `find(key)`. -/
def find (k : KeyArg) : Eff Report Members ℕ := doFind J k.chars k.keylen

/-! ### Changes -/

/-- The loop of `do_erase`, which searches again after each erasure; one unit of fuel an erasure. -/
def doEraseLoop (jsonKey : JsonName) : ℕ → ℕ → Eff Report Members ℕ
  | 0, count => do
      let ms ← Eff.get
      if J.findMember jsonKey ms ≠ ms.length then Eff.diverge else pure count
  | fuel + 1, count => do
      let ms ← Eff.get
      let it := J.findMember jsonKey ms
      if it ≠ ms.length then do
        Eff.modify (J.eraseMember it)
        doEraseLoop jsonKey fuel (count + 1)
      else pure count

/-- `do_erase`: the number of entries removed. -/
def doErase (fuel : ℕ) (key : List UInt8) (keylen : ℕ) : Eff Report Members ℕ :=
  doEraseLoop J (.string (key.take keylen)) fuel 0

/-- `erase(key)`. -/
def erase (fuel : ℕ) (k : KeyArg) : Eff Report Members ℕ := doErase J fuel k.chars k.keylen

/-- `do_push(key, keylen, value)`. -/
def doPush (key : List UInt8) (keylen : ℕ) (value : CciValue) : Eff Report Members Unit :=
  Eff.modify (J.addMember (key.take keylen) value)

/-- `push_entry(key, value)` for a `cci_value`. -/
def pushEntry (k : KeyArg) (value : CciValue) : Eff Report Members Unit :=
  doPush J k.chars k.keylen value

/-- `do_push<T>(key, keylen, value)`: the length is not passed on. -/
def doPushValue {T : Type} (conv : Converter T) (key : List UInt8) (_keylen : ℕ) (value : T) :
    Eff Report Members Unit :=
  match conv.cciValue throws value with
  | .error e => Eff.raise e
  | .ok v => pushEntry J (.pointer key) v

/-- `push_entry(key, value)` for a type with a converter. -/
def pushEntryValue {T : Type} (conv : Converter T) (k : KeyArg) (value : T) :
    Eff Report Members Unit :=
  doPushValue J throws conv k.chars k.keylen value

/-! ### What a lookup finds -/

section Lookup

variable {J : RapidJson} {throws} {ms : Members} {i : ℕ}

/-- The entry at the position is the first one with this key. -/
abbrev FirstWith (key : List UInt8) (ms : Members) (i : ℕ) : Prop :=
  FirstFrom (Match (hasName key) ms) 0 i

/-- No entry has this key. -/
def Absent (key : List UInt8) (ms : Members) : Prop := ∀ m ∈ ms, hasName key m = false

theorem findMember_first (hJ : J.Documented) {name : JsonName} (h : FirstWith name.chars ms i) :
    J.findMember name ms = i := by
  rw [hJ.findMember, h.findIdx_eq]

theorem findMember_absent (hJ : J.Documented) {name : JsonName} (h : Absent name.chars ms) :
    J.findMember name ms = ms.length := by
  rw [hJ.findMember, List.findIdx_eq_length]
  exact h

variable {key : List UInt8} {keylen : ℕ}

theorem doLookup_first (hJ : J.Documented) (h : FirstWith (key.take keylen) ms i)
    (mode : LookupMode) : doLookup J throws key keylen mode ms = (.ok (some i), ms) := by
  have hfind : J.findMember (.string (key.take keylen)) ms = i := findMember_first hJ h
  have hne : i ≠ ms.length := by
    have := h.2.1.lt
    omega
  unfold doLookup
  rw [Eff.get_bind_run, hfind, if_pos hne, Eff.pure_run]

theorem doLookup_optional (hJ : J.Documented) (h : Absent (key.take keylen) ms) :
    doLookup J throws key keylen .keyOptional ms = (.ok none, ms) := by
  have hfind : J.findMember (.string (key.take keylen)) ms = ms.length := findMember_absent hJ h
  unfold doLookup
  rw [Eff.get_bind_run, hfind, if_neg (not_not.2 rfl)]
  rfl

/-- The appended entry is the one found afterwards. -/
theorem firstWith_append (h : Absent key ms) (value : CciValue) :
    FirstWith key (ms ++ [(key, value)]) ms.length := by
  refine ⟨Nat.zero_le _, ⟨(key, value), ?_, beq_self_eq_true key⟩, fun k _ hk hmatch => ?_⟩
  · rw [List.getElem?_append_right le_rfl, Nat.sub_self]
    rfl
  · obtain ⟨m, hm, hname⟩ := hmatch
    rw [List.getElem?_append_left hk] at hm
    rw [h m (List.mem_of_getElem? hm)] at hname
    cases hname

theorem doLookup_create (hJ : J.Documented) (h : Absent (key.take keylen) ms) :
    doLookup J throws key keylen .keyCreate ms =
      (.ok (some ms.length), ms ++ [(key.take keylen, .null)]) := by
  have hfind : J.findMember (.string (key.take keylen)) ms = ms.length := findMember_absent hJ h
  have hagain : J.findMember (.string (key.take keylen)) (ms ++ [(key.take keylen, .null)]) =
      ms.length := findMember_first hJ (firstWith_append h .null)
  have hassert : decide (ms.length ≠ (ms ++ [(key.take keylen, CciValue.null)]).length) = true := by
    rw [List.length_append, List.length_singleton, decide_eq_true_eq]
    omega
  unfold doLookup
  rw [Eff.get_bind_run, hfind, if_neg (not_not.2 rfl)]
  simp only [Eff.modify_bind_run, Eff.get_bind_run, hJ.addMember, hagain, scAssert, hassert, if_true,
    Eff.pure_bind_run, Eff.pure_run]

end Lookup

/-! ### Erasure -/

section Erase

variable {J : RapidJson} {ms : Members}

/-- Of the entries, the ones with another key. -/
def others (key : List UInt8) (ms : Members) : Members := ms.filter fun m => !hasName key m

theorem absent_others (key : List UInt8) (ms : Members) : Absent key (others key ms) := by
  intro m hm
  exact Bool.not_eq_true' _ ▸ (List.mem_filter.1 hm).2

/-- The loop removes one entry with the key after the other. -/
theorem doEraseLoop_run (hJ : J.Documented) (name : JsonName) {fuel : ℕ}
    (hfuel : ms.countP (hasName name.chars) ≤ fuel) (count : ℕ) :
    doEraseLoop J name fuel count ms =
      (.ok (count + ms.countP (hasName name.chars)), others name.chars ms) := by
  induction fuel generalizing ms count with
  | zero =>
    have hcount : ms.countP (hasName name.chars) = 0 := by omega
    have habsent : Absent name.chars ms := by simpa [Absent] using hcount
    have hothers : others name.chars ms = ms := List.filter_eq_self.2 (by simpa [Absent] using habsent)
    rw [doEraseLoop, Eff.get_bind_run, findMember_absent hJ habsent, if_neg (not_not.2 rfl), hcount,
      hothers]
    rfl
  | succ fuel ih =>
    by_cases habsent : Absent name.chars ms
    · have hcount : ms.countP (hasName name.chars) = 0 := by simpa [Absent] using habsent
      have hothers : others name.chars ms = ms :=
        List.filter_eq_self.2 (by simpa [Absent] using habsent)
      rw [doEraseLoop, Eff.get_bind_run, findMember_absent hJ habsent, if_neg (not_not.2 rfl), hcount,
        hothers]
      rfl
    · obtain ⟨i, hi⟩ := exists_firstFrom_match habsent
      have hlt : i < ms.length := hi.2.1.lt
      obtain ⟨m, hm, hname⟩ := hi.2.1
      have herase : J.eraseMember i ms = ms.eraseP (hasName name.chars) := by
        rw [hJ.eraseMember i ms hlt, ← EraseLoop.eraseIdx_findIdx, hi.findIdx_eq]
      have hcount := EraseLoop.countP_eraseP (List.mem_of_getElem? hm) hname
      have hothers : others name.chars (ms.eraseP (hasName name.chars)) = others name.chars ms :=
        EraseLoop.filter_eraseP ms
      rw [doEraseLoop, Eff.get_bind_run, findMember_first hJ hi, if_pos (by omega),
        Eff.modify_bind_run, herase, ih (by omega), hothers]
      congr 2
      omega

end Erase

/-! ### The functions of a map -/

section Map

variable {J : RapidJson} {throws} {k : KeyArg} {ms : Members} {i : ℕ}

theorem hasEntry_first (hJ : J.Documented) (h : FirstWith k.key ms i) :
    hasEntry J throws k ms = (.ok true, ms) := by
  rw [← k.take_chars] at h
  rw [hasEntry, Eff.bind_run_ok (doLookup_first hJ h _)]
  rfl

theorem hasEntry_absent (hJ : J.Documented) (h : Absent k.key ms) :
    hasEntry J throws k ms = (.ok false, ms) := by
  rw [← k.take_chars] at h
  rw [hasEntry, Eff.bind_run_ok (doLookup_optional hJ h)]
  rfl

/-- `find` looks for what stands before the first NUL of the key. -/
theorem find_run (hJ : J.Documented) (k : KeyArg) (ms : Members) :
    find J k ms = (.ok (ms.findIdx (hasName (cString k.key))), ms) := by
  have hchars : cString k.chars = cString k.key := by
    cases k with
    | string key => rfl
    | pointer key => simp [KeyArg.chars, KeyArg.key, cString, List.takeWhile_takeWhile]
  rw [find, doFind, Eff.gets_run, hJ.findMember, JsonName.chars, hchars]

theorem find_first (hJ : J.Documented) (hk : 0 ∉ k.key) (h : FirstWith k.key ms i) :
    find J k ms = (.ok i, ms) := by
  rw [find_run hJ, charArrayConverter.cString_eq_self.2 hk, h.findIdx_eq]

theorem find_absent (hJ : J.Documented) (h : Absent (cString k.key) ms) :
    find J k ms = (.ok ms.length, ms) := by
  rw [find_run hJ, List.findIdx_eq_length.2 h]

theorem erase_run (hJ : J.Documented) {fuel : ℕ} (hfuel : ms.length ≤ fuel) :
    erase J fuel k ms = (.ok (ms.countP (hasName k.key)), others k.key ms) := by
  have hle : ms.countP (hasName k.key) ≤ fuel := List.countP_le_length.trans hfuel
  rw [erase, doErase, k.take_chars, doEraseLoop_run hJ (.string k.key) hle, Nat.zero_add]
  rfl

theorem pushEntry_run (hJ : J.Documented) (value : CciValue) :
    pushEntry J k value ms = (.ok (), ms ++ [(k.key, value)]) := by
  rw [pushEntry, doPush, k.take_chars, Eff.modify_run, hJ.addMember]

/-- The operations agree on the entries that have the key. -/
structure Consistent (J : RapidJson) (throws : Bool) (k : KeyArg) (ms : Members) : Prop where
  /-- `erase` comes to its end, returns how many entries have the key and leaves the others in their
  order; -/
  erases : ∀ fuel, ms.length ≤ fuel →
    erase J fuel k ms = (.ok (ms.countP (hasName k.key)), others k.key ms)
  /-- the key is then not found. -/
  erased : hasEntry J throws k (others k.key ms) = (.ok false, others k.key ms) ∧
    find J k (others k.key ms) = (.ok (others k.key ms).length, others k.key ms)
  /-- If there is an entry with the key, the lookups agree on the first one and change nothing. -/
  present : ∀ i, FirstWith k.key ms i →
    subscript J throws k ms = (.ok (some i), ms) ∧ find J k ms = (.ok i, ms) ∧
      hasEntry J throws k ms = (.ok true, ms)
  /-- If there is none, `find` and `has_entry` say so, and `operator[]` appends a null entry, which is
  then the first one with the key. -/
  absent : Absent k.key ms →
    subscript J throws k ms = (.ok (some ms.length), ms ++ [(k.key, .null)]) ∧
      FirstWith k.key (ms ++ [(k.key, .null)]) ms.length ∧ find J k ms = (.ok ms.length, ms) ∧
      hasEntry J throws k ms = (.ok false, ms)

theorem absent_or_first (key : List UInt8) (ms : Members) :
    Absent key ms ∨ ∃ i, FirstWith key ms i := by
  by_cases h : Absent key ms
  · exact .inl h
  · exact .inr (exists_firstFrom_match h)

/-- Where `find` says what `has_entry` says, the operations agree. -/
theorem Consistent.of_find (hJ : J.Documented)
    (hpresent : ∀ i, FirstWith k.key ms i → find J k ms = (.ok i, ms))
    (habsent : Absent k.key ms → find J k ms = (.ok ms.length, ms))
    (herased : find J k (others k.key ms) = (.ok (others k.key ms).length, others k.key ms)) :
    Consistent J throws k ms where
  erases _ hfuel := erase_run hJ hfuel
  erased := ⟨hasEntry_absent hJ (absent_others k.key ms), herased⟩
  present i h := by
    refine ⟨?_, hpresent i h, hasEntry_first hJ h⟩
    rw [← k.take_chars] at h
    exact doLookup_first hJ h .keyCreate
  absent h := by
    refine ⟨?_, firstWith_append h .null, habsent h, hasEntry_absent hJ h⟩
    rw [← k.take_chars] at h ⊢
    exact doLookup_create hJ h

/-- **Maps.**  Of any map, with repeated keys or without, the operations agree on the entries with a
key if and only if the key contains no NUL, or the map has no entry with the key and none with what
stands before its first NUL. -/
theorem map_consistent (hJ : J.Documented) (throws : Bool) (k : KeyArg) (ms : Members) :
    Consistent J throws k ms ↔ 0 ∉ k.key ∨ (Absent k.key ms ∧ Absent (cString k.key) ms) := by
  constructor
  · intro h
    by_cases hk : 0 ∈ k.key
    · refine .inr ?_
      rcases absent_or_first k.key ms with habsent | ⟨i, hi⟩
      · obtain ⟨-, -, hfind, -⟩ := h.absent habsent
        rw [find_run hJ] at hfind
        have hnone : ms.findIdx (hasName (cString k.key)) = ms.length := by
          injection (congrArg Prod.fst hfind)
        exact ⟨habsent, List.findIdx_eq_length.1 hnone⟩
      · -- the entry at `i` would have both names
        obtain ⟨-, hfind, -⟩ := h.present i hi
        rw [find_run hJ] at hfind
        have hfirst : ms.findIdx (hasName (cString k.key)) = i := by
          injection (congrArg Prod.fst hfind)
        obtain ⟨m, hm, hname⟩ := hi.2.1
        have hlt : ms.findIdx (hasName (cString k.key)) < ms.length := hfirst ▸ hi.2.1.lt
        have hthere := List.findIdx_getElem (w := hlt)
        obtain ⟨hi', rfl⟩ := List.getElem?_eq_some_iff.1 hm
        simp only [hfirst] at hthere
        have hsame : cString k.key = k.key := (eq_of_beq hthere).symm.trans (eq_of_beq hname)
        exact absurd hk (charArrayConverter.cString_eq_self.1 hsame)
    · exact .inl hk
  · rintro (hk | ⟨habsent, hprefix⟩)
    · have hstr : cString k.key = k.key := charArrayConverter.cString_eq_self.2 hk
      refine .of_find hJ (fun i h => find_first hJ hk h) (fun h => find_absent hJ ?_)
        (find_absent hJ ?_)
      · rw [hstr]
        exact h
      · rw [hstr]
        exact absent_others k.key ms
    · refine .of_find hJ (fun i h => ?_) (fun _ => find_absent hJ hprefix)
        (find_absent hJ fun m hm => ?_)
      · obtain ⟨m, hm, hname⟩ := h.2.1
        rw [habsent m (List.mem_of_getElem? hm)] at hname
        cases hname
      · exact hprefix m (List.mem_of_mem_filter hm)

/-- A library as documented. -/
def orderedMembers : RapidJson where
  findMember name ms := ms.findIdx (hasName name.chars)
  addMember name value ms := ms ++ [(name, value)]
  eraseMember it ms := ms.eraseIdx it

theorem orderedMembers_documented : orderedMembers.Documented :=
  ⟨fun _ _ => rfl, fun _ _ _ => rfl, fun _ _ _ => rfl⟩

/-- A map in which a key is repeated. -/
def repeated : Members := [([97], .bool true), ([98], .null), ([97], .bool false)]

theorem map_consistent_repeated :
    erase orderedMembers 3 (.string [97]) repeated = (.ok 2, [([98], .null)]) ∧
      subscript orderedMembers true (.string [99]) repeated =
        (.ok (some 3), repeated ++ [([99], .null)]) :=
  ⟨((map_consistent orderedMembers_documented true (.string [97]) repeated).2
      (.inl (by decide))).erases 3 le_rfl,
    (((map_consistent orderedMembers_documented true (.string [99]) repeated).2
      (.inl (by decide))).absent (by unfold Absent; decide)).1⟩

/-- An entry whose key has a NUL is there, and `find` returns the end. -/
theorem map_inconsistent_nul :
    let k := KeyArg.string [97, 0, 98]
    let ms := (pushEntry orderedMembers k (.bool true) []).2
    ¬Consistent orderedMembers true k ms ∧
      hasEntry orderedMembers true k ms = (.ok true, ms) ∧ find orderedMembers k ms = (.ok 1, ms) ∧
      ms.length = 1 := by
  intro k ms
  have hfind : find orderedMembers k ms = (.ok 1, ms) := rfl
  have hfirst : FirstWith k.key ms 0 :=
    ⟨le_rfl, ⟨([97, 0, 98], .bool true), rfl, rfl⟩, fun j _ hj => absurd hj (Nat.not_lt_zero j)⟩
  refine ⟨fun h => ?_, rfl, hfind, rfl⟩
  obtain ⟨-, hzero, -⟩ := h.present 0 hfirst
  cases hfind.symm.trans hzero

/-! ### Entries under the given key -/

/-- The push appends one entry with this key and value, and the key is found afterwards. -/
def StoresUnder (J : RapidJson) (throws : Bool) (key : List UInt8) (value : CciValue) (ms : Members)
    (push : Eff Report Members Unit) : Prop :=
  ∃ ms', push ms = (.ok (), ms') ∧ ms' = ms ++ [(key, value)] ∧
    hasEntry J throws (.string key) ms' = (.ok true, ms')

theorem exists_firstWith_append (key : List UInt8) (value : CciValue) (ms : Members) :
    ∃ i, FirstWith key (ms ++ [(key, value)]) i := by
  apply exists_firstFrom_match
  intro h
  have hlast := h (key, value) (List.mem_append_right ms (List.mem_singleton.2 rfl))
  rw [hasName, beq_self_eq_true] at hlast
  cases hlast

variable {T : Type} {conv : Converter T} {value : T} {c : CciValue}

theorem pushEntryValue_run (hJ : J.Documented) (hc : conv.cciValue throws value = .ok c)
    (k : KeyArg) :
    pushEntryValue J throws conv k value ms = (.ok (), ms ++ [(cString k.chars, c)]) := by
  rw [pushEntryValue, doPushValue, hc]
  exact pushEntry_run hJ c

/-- **Entries under the given key.**  For a `cci_value`, `push_entry` stores under exactly the given
`std::string`.  For a type with a converter it does so, and the maps are equal, if and only if the
string contains no NUL. -/
theorem push_entry_exact (hJ : J.Documented) (throws : Bool) (hc : conv.cciValue throws value = .ok c)
    (key : List UInt8) (ms : Members) :
    StoresUnder J throws key c ms (pushEntry J (.string key) c) ∧
      (StoresUnder J throws key c ms (pushEntryValue J throws conv (.string key) value) ↔
        0 ∉ key) ∧
      (pushEntryValue J throws conv (.string key) value ms = pushEntry J (.string key) c ms ↔
        0 ∉ key) := by
  obtain ⟨i, hi⟩ := exists_firstWith_append key c ms
  have hentry : hasEntry J throws (.string key) (ms ++ [(key, c)]) =
      (.ok true, ms ++ [(key, c)]) := hasEntry_first hJ hi
  have hpush : pushEntry J (.string key) c ms = (.ok (), ms ++ [(key, c)]) := pushEntry_run hJ c
  have hvalue : pushEntryValue J throws conv (.string key) value ms =
      (.ok (), ms ++ [(cString key, c)]) := pushEntryValue_run hJ hc (.string key)
  have hsame : ms ++ [(cString key, c)] = ms ++ [(key, c)] ↔ 0 ∉ key := by
    rw [List.append_cancel_left_eq, List.singleton_inj, Prod.mk.injEq, and_iff_left rfl,
      charArrayConverter.cString_eq_self]
  refine ⟨⟨_, hpush, rfl, hentry⟩, ⟨fun ⟨ms', hrun, heq, _⟩ => ?_, fun hzero => ?_⟩, ?_⟩
  · rw [hvalue] at hrun
    exact hsame.1 ((congrArg Prod.snd hrun).trans heq)
  · exact ⟨_, hvalue.trans (by rw [hsame.2 hzero]), rfl, hentry⟩
  · rw [hvalue, hpush, Prod.mk.injEq, and_iff_right rfl]
    exact hsame

/-- A key without NUL. -/
theorem push_entry_exact_plain :
    pushEntryValue orderedMembers true boolConverter (.string [97]) true [] =
      pushEntry orderedMembers (.string [97]) (.bool true) [] := by
  have hc : boolConverter.cciValue true true = .ok (.bool true) := rfl
  exact (push_entry_exact orderedMembers_documented true hc [97] []).2.2.2 (by decide)

/-- The entry is stored under the C string that the key starts with. -/
theorem push_entry_nul :
    ¬∀ (J : RapidJson) (throws : Bool) (value : Bool) (c : CciValue) (key : List UInt8) (ms : Members),
      J.Documented → boolConverter.cciValue throws value = .ok c →
        StoresUnder J throws key c ms (pushEntryValue J throws boolConverter (.string key) value) := by
  intro h
  obtain ⟨ms', hrun, heq, -⟩ :=
    h orderedMembers true true (.bool true) [97, 0, 98] [] orderedMembers_documented rfl
  have hkey : cString [97, 0, 98] = [97] := by decide
  rw [pushEntryValue_run orderedMembers_documented rfl, KeyArg.chars, hkey] at hrun
  cases (congrArg Prod.snd hrun).trans heq

end Map

end CciValueMap

end Cci
