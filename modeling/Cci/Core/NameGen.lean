import Cci.Lib.Runs
import Cci.Cfg.World

/-!
# Unique names

The registry of names that CCI keeps for itself where SystemC does not offer one.  A name that is
taken gets a number appended, counted for each name.

* `NameRegistry` with `genUniqueName` and `unregisterName`;
* `answer` — the name `cci_gen_unique_name` returns, read off the state before the call;
* `genUniqueName_run` — it returns that name, whatever its recursion runs into;
* `Accounted` — how the names in the registry came there;
* `unique_names_exact` — when all names returned in a run are new.
-/

namespace Cci

open Effect

/-- `cci_name_state`. -/
inductive CciNameState where
  | free | used
deriving DecidableEq, Repr

/-- `cci_unique_names`, with the reports so far. -/
structure NameRegistry where
  uniqueNames : Std.ExtTreeMap String (ℕ × CciNameState) := ∅
  reports : List Report := []

/-- What the registry cannot change: the SystemC objects that `sc_find_object` finds, and whether
error reports throw. -/
structure NameEnv where
  objects : Finset String
  throws : Bool

/-- `name << "_" << n`. -/
def numbered (name : String) (n : ℕ) : String := name ++ "_" ++ toString n

namespace NameRegistry

/-- The number the next conflict of a name is given. -/
def counter (s : NameRegistry) (name : String) : ℕ :=
  match s.uniqueNames[name]? with
  | some (n, _) => n
  | none => 0

/-- `cci_get_cci_unique_names().insert(…)`. -/
def insertName (name : String) (s : NameRegistry) : NameRegistry :=
  { s with uniqueNames := s.uniqueNames.insertIfNew name (0, .used) }

/-- `ret.first->second.first++`. -/
def bump (name : String) (s : NameRegistry) : NameRegistry :=
  { s with uniqueNames := s.uniqueNames.modify name fun e => (e.1 + 1, e.2) }

def report (r : Report) (s : NameRegistry) : NameRegistry := { s with reports := s.reports ++ [r] }

end NameRegistry

open NameRegistry

def emptyName : Report := cciReport "cci_name_gen/gen_unique_name" "empty name is not allowed"

/-- `CCI_NAME_CONFLICT_WITH_SYSTEMC_WARNING_`. -/
def conflictWithSystemc (name newName : String) : Report :=
  cciReport "cci_name_gen/gen_unique_name"
    (name ++ " is already used in the SystemC hierarchy, using " ++ newName ++ " instead")

/-- `cci_get_cci_unique_names().find(name)->first`. -/
def findName (name : String) : Eff Report NameRegistry String := do
  let s ← Eff.get
  if name ∈ s.uniqueNames then pure name else Eff.abort

/-- `cci_gen_unique_name`, one unit of fuel a recursive call.  The name that the recursive call
returns is not used. -/
def genUniqueName (env : NameEnv) : ℕ → String → Eff Report NameRegistry String
  | 0, _ => Eff.diverge
  | fuel + 1, name => do
      if name = "" then
        Eff.modify (report emptyName)
        if env.throws then Eff.raise emptyName else Eff.abort
      else
        let s ← Eff.get
        Eff.modify (insertName name)
        if name ∈ s.uniqueNames ∨ name ∈ env.objects then
          let s ← Eff.get
          let newName := numbered name (s.counter name)
          Eff.modify (bump name)
          let _ ← genUniqueName env fuel newName
          if name ∈ env.objects then Eff.modify (report (conflictWithSystemc name newName))
          findName newName
        else findName name

/-- `cci_unregister_name`. -/
def unregisterName (name : String) : Eff Report NameRegistry Bool := do
  let s ← Eff.get
  if name ∈ s.uniqueNames then
    Eff.modify fun s => { s with uniqueNames := s.uniqueNames.modify name fun e => (e.1, .free) }
    pure true
  else pure false

/-! ### Numbered names -/

theorem numbered_inj {x y : String} {i j : ℕ} (h : numbered x i = numbered y j) : x = y ∧ i = j := by
  have hdigits : ∀ k : ℕ, ∀ c ∈ (toString k : String).toList, c ≠ '_' := by
    intro k c hc hbad
    rw [Nat.toString_eq_ofList_toDigits, String.toList_ofList] at hc
    rw [hbad] at hc
    exact Nat.underscore_not_in_toDigits hc
  have hsuffix : ∀ {a b u v : List Char}, (∀ c ∈ u, c ≠ '_') → (∀ c ∈ v, c ≠ '_') →
      a ++ '_' :: u = b ++ '_' :: v → u = v := by
    intro a b u v hu hv heq
    have hrev := congrArg (fun l => l.reverse.takeWhile (· ≠ '_')) heq
    have htake : ∀ {a u : List Char}, (∀ c ∈ u, c ≠ '_') →
        (a ++ '_' :: u).reverse.takeWhile (· ≠ '_') = u.reverse := by
      intro a u hu
      rw [List.reverse_append, List.reverse_cons, List.append_assoc,
        List.takeWhile_append_of_pos (by simpa using hu)]
      simp
    rw [htake hu, htake hv] at hrev
    exact List.reverse_injective hrev
  have hlist := congrArg String.toList h
  simp only [numbered, String.toList_append, List.append_assoc] at hlist
  have hnum : (toString i : String).toList = (toString j : String).toList :=
    hsuffix (hdigits i) (hdigits j) hlist
  have hij : i = j := Nat.repr_injective (String.toList_injective hnum)
  subst hij
  refine ⟨?_, rfl⟩
  exact (String.append_left_inj "_").1 ((String.append_left_inj (toString i)).1 h)

theorem length_lt_numbered (x : String) (i : ℕ) : x.length < (numbered x i).length := by
  have hone : ("_" : String).length = 1 := rfl
  simp only [numbered, String.length_append, hone]
  omega

theorem numbered_ne_empty (x : String) (i : ℕ) : numbered x i ≠ "" := by
  intro h
  have := length_lt_numbered x i
  rw [h] at this
  exact Nat.not_lt_zero _ this

/-! ### What the primitive steps do -/

namespace NameRegistry

variable (s : NameRegistry)

@[simp] theorem mem_insertName (n x : String) :
    x ∈ (s.insertName n).uniqueNames ↔ n = x ∨ x ∈ s.uniqueNames := by
  simp [insertName, Std.ExtTreeMap.mem_insertIfNew]

@[simp] theorem counter_insertName (n x : String) : (s.insertName n).counter x = s.counter x := by
  simp only [counter, insertName, Std.ExtTreeMap.getElem?_insertIfNew]
  by_cases h : compare n x = .eq ∧ n ∉ s.uniqueNames
  · obtain ⟨hx, hn⟩ := h
    rw [if_pos ⟨hx, hn⟩]
    rw [Std.LawfulEqOrd.eq_of_compare hx] at hn
    rw [Std.ExtTreeMap.getElem?_eq_none hn]
  · rw [if_neg h]

@[simp] theorem mem_bump (n x : String) : x ∈ (s.bump n).uniqueNames ↔ x ∈ s.uniqueNames :=
  Std.ExtTreeMap.mem_modify

theorem counter_bump_self {n : String} (h : n ∈ s.uniqueNames) :
    (s.bump n).counter n = s.counter n + 1 := by
  simp only [counter, bump, Std.ExtTreeMap.getElem?_modify_self]
  rw [Std.ExtTreeMap.mem_iff_isSome_getElem?] at h
  obtain ⟨e, he⟩ := Option.isSome_iff_exists.1 h
  rw [he]
  rfl

theorem counter_le_bump (n x : String) : s.counter x ≤ (s.bump n).counter x := by
  simp only [counter, bump, Std.ExtTreeMap.getElem?_modify]
  by_cases h : compare n x = .eq
  · rw [if_pos h, Std.LawfulEqOrd.eq_of_compare h]
    cases s.uniqueNames[x]? with
    | none => exact Nat.le_refl 0
    | some e => exact Nat.le_succ _
  · rw [if_neg h]

end NameRegistry

/-- The name a call returns. -/
def answer (env : NameEnv) (s : NameRegistry) (name : String) : String :=
  if name ∈ s.uniqueNames ∨ name ∈ env.objects then numbered name (s.counter name) else name

/-- How a call for `name` changes the registry: nothing is forgotten, and of the new names all but
`name` itself were numbered. -/
structure Enlarges (s t : NameRegistry) (name : String) : Prop where
  kept : ∀ x ∈ s.uniqueNames, x ∈ t.uniqueNames
  entered : name ∈ t.uniqueNames
  counters : ∀ x, s.counter x ≤ t.counter x
  new : ∀ x ∈ t.uniqueNames, x ∈ s.uniqueNames ∨ x = name ∨ ∃ y, ∃ j < t.counter y, x = numbered y j

/-- The registered names and the objects that are at least as long as `name`: those the recursion of
a call can still run into. -/
def inTheWay (env : NameEnv) (s : NameRegistry) (name : String) : Finset String :=
  (s.uniqueNames.keys.toFinset ∪ env.objects).filter fun x => name.length ≤ x.length

theorem mem_inTheWay {env : NameEnv} {s : NameRegistry} {name x : String} :
    x ∈ inTheWay env s name ↔
      (x ∈ s.uniqueNames ∨ x ∈ env.objects) ∧ name.length ≤ x.length := by
  simp [inTheWay, Std.ExtTreeMap.mem_keys]

/-- The recursive call has fewer names in its way: the one just found is shorter than its own. -/
theorem inTheWay_numbered_lt {env : NameEnv} {s : NameRegistry} {name : String}
    (h : name ∈ s.uniqueNames ∨ name ∈ env.objects) (k : ℕ) :
    (inTheWay env ((s.insertName name).bump name) (numbered name k)).card <
      (inTheWay env s name).card := by
  have hlen := length_lt_numbered name k
  apply Finset.card_lt_card
  rw [Finset.ssubset_iff_of_subset]
  · refine ⟨name, mem_inTheWay.2 ⟨h, Nat.le_refl _⟩, fun hmem => ?_⟩
    have := (mem_inTheWay.1 hmem).2
    omega
  · intro x hx
    obtain ⟨hmem, hx⟩ := mem_inTheWay.1 hx
    refine mem_inTheWay.2 ⟨?_, by omega⟩
    rcases hmem with hmem | hmem
    · rw [mem_bump, mem_insertName] at hmem
      rcases hmem with rfl | hmem
      · omega
      · exact .inl hmem
    · exact .inr hmem

/-- The fuel that suffices for every call. -/
def nameFuel (env : NameEnv) (s : NameRegistry) : ℕ := s.uniqueNames.size + env.objects.card + 1

theorem inTheWay_lt_nameFuel (env : NameEnv) (s : NameRegistry) (name : String) :
    (inTheWay env s name).card < nameFuel env s := by
  have hfilter : (inTheWay env s name).card ≤ (s.uniqueNames.keys.toFinset ∪ env.objects).card :=
    Finset.card_filter_le _ _
  have hunion := Finset.card_union_le s.uniqueNames.keys.toFinset env.objects
  have hkeys : s.uniqueNames.keys.toFinset.card ≤ s.uniqueNames.size := by
    rw [← Std.ExtTreeMap.length_keys]
    exact List.toFinset_card_le _
  simp only [nameFuel]
  omega

theorem findName_run {s : NameRegistry} {name : String} (h : name ∈ s.uniqueNames) :
    findName name s = (.ok name, s) := by
  simp [findName, h]

/-- A call terminates and returns its answer. -/
theorem genUniqueName_run (env : NameEnv) (fuel : ℕ) {s : NameRegistry} {name : String}
    (hname : name ≠ "") (hfuel : (inTheWay env s name).card < fuel) :
    ∃ t, (∀ fuel', fuel ≤ fuel' →
      genUniqueName env fuel' name s = (.ok (answer env s name), t)) ∧ Enlarges s t name ∧
      answer env s name ∈ t.uniqueNames := by
  induction fuel generalizing s name with
  | zero => omega
  | succ fuel ih =>
    by_cases h : name ∈ s.uniqueNames ∨ name ∈ env.objects
    · -- The name is taken: the recursion works on the number it is given, one level deeper.
      have hmem : name ∈ (s.insertName name).uniqueNames := (mem_insertName s name name).2 (.inl rfl)
      have hlt := inTheWay_numbered_lt h (s.counter name)
      have hanswer : answer env s name = numbered name (s.counter name) := if_pos h
      obtain ⟨t, hrun, hext, -⟩ := ih (s := (s.insertName name).bump name)
        (numbered_ne_empty name (s.counter name)) (by omega)
      have hbumped : s.counter name < ((s.insertName name).bump name).counter name := by
        rw [counter_bump_self _ hmem, counter_insertName]
        exact Nat.lt_succ_self _
      let t' : NameRegistry :=
        if name ∈ env.objects then
          t.report (conflictWithSystemc name (numbered name (s.counter name)))
        else t
      have ht' : t'.uniqueNames = t.uniqueNames := by
        simp only [t']
        split <;> rfl
      have hcounter : ∀ x, t'.counter x = t.counter x := fun x => by simp only [counter, ht']
      have hfound : numbered name (s.counter name) ∈ t'.uniqueNames := by
        rw [ht']
        exact hext.entered
      refine ⟨t', fun fuel' hle => ?_, ⟨?_, ?_, ?_, ?_⟩, by rw [hanswer]; exact hfound⟩
      · obtain ⟨fuel', rfl⟩ : ∃ k, fuel' = k + 1 := ⟨fuel' - 1, by omega⟩
        have hstep : genUniqueName env (fuel' + 1) name s = (genUniqueName env fuel'
            (numbered name (s.counter name)) >>= fun _ => do
              if name ∈ env.objects then
                Eff.modify (report (conflictWithSystemc name (numbered name (s.counter name))))
              findName (numbered name (s.counter name))) ((s.insertName name).bump name) := by
          simp only [genUniqueName, if_neg hname, Eff.get_bind_run, Eff.modify_bind_run, if_pos h,
            counter_insertName]
        rw [hstep, Eff.bind_run_ok (hrun fuel' (by omega)), hanswer, ← findName_run hfound]
        simp only [t']
        split
        · rfl
        · rfl
      · intro x hx
        rw [ht']
        exact hext.kept x (by simp [hx])
      · rw [ht']
        exact hext.kept name (by simp)
      · intro x
        rw [hcounter]
        have h₁ := counter_le_bump (s.insertName name) name x
        have h₂ := hext.counters x
        rw [counter_insertName] at h₁
        omega
      · intro x hx
        rw [ht'] at hx
        simp only [hcounter]
        rcases hext.new x hx with hx | rfl | hx
        · rw [mem_bump, mem_insertName] at hx
          rcases hx with rfl | hx
          · exact .inr (.inl rfl)
          · exact .inl hx
        · exact .inr (.inr ⟨name, _, Nat.lt_of_lt_of_le hbumped (hext.counters name), rfl⟩)
        · exact .inr (.inr hx)
    · have hanswer : answer env s name = name := if_neg h
      have hmem : name ∈ (s.insertName name).uniqueNames := (mem_insertName s name name).2 (.inl rfl)
      refine ⟨s.insertName name, fun fuel' hle => ?_, ⟨?_, hmem, ?_, ?_⟩,
        by rw [hanswer]; exact hmem⟩
      · obtain ⟨fuel', rfl⟩ : ∃ k, fuel' = k + 1 := ⟨fuel' - 1, by omega⟩
        simp only [genUniqueName, if_neg hname, Eff.get_bind_run, Eff.modify_bind_run, if_neg h,
          hanswer]
        exact findName_run hmem
      · exact fun x hx => (mem_insertName s name x).2 (.inr hx)
      · exact fun x => Nat.le_of_eq (counter_insertName s name x).symm
      · intro x hx
        rcases (mem_insertName s name x).1 hx with rfl | hx
        · exact .inr (.inl rfl)
        · exact .inl hx

/-! ### Runs -/

/-- The calls on the registry. -/
inductive NameCmd where
  | genUniqueName (name : String) : NameCmd
  | unregisterName (name : String) : NameCmd
deriving DecidableEq

/-- What a call returns. -/
inductive NameAnswer where
  | name (n : String) : NameAnswer
  | flag (b : Bool) : NameAnswer
deriving DecidableEq

namespace NameCmd

def run (env : NameEnv) : NameCmd → Eff Report NameRegistry NameAnswer
  | .genUniqueName n => do
      let s ← Eff.get
      let r ← Cci.genUniqueName env (nameFuel env s) n
      pure (.name r)
  | .unregisterName n => do
      let b ← Cci.unregisterName n
      pure (.flag b)

end NameCmd

/-- The registry after a sequence of calls. -/
def afterCalls (env : NameEnv) (cs : List NameCmd) : NameRegistry :=
  states (NameCmd.run env) {} cs

/-- The names a sequence of calls of `cci_gen_unique_name` returned. -/
def returnedNames (env : NameEnv) (cs : List NameCmd) : List String :=
  (outcomes (NameCmd.run env) {} cs).filterMap fun
    | .ok (.name n) => some n
    | _ => none

/-- Every name in the registry was returned, belongs to a SystemC object, or has a number that its
counter has passed. -/
structure Accounted (env : NameEnv) (s : NameRegistry) (returned : List String) : Prop where
  registered : ∀ r ∈ returned, r ∈ s.uniqueNames
  source : ∀ x ∈ s.uniqueNames,
    x ∈ returned ∨ x ∈ env.objects ∨ ∃ y, ∃ j < s.counter y, x = numbered y j

/-- The call meets nothing in its way: the name itself is free, or else the numbered one is. -/
def Clear (env : NameEnv) (s : NameRegistry) (name : String) : Prop :=
  (name ∉ s.uniqueNames ∧ name ∉ env.objects) ∨
    (numbered name (s.counter name) ∉ s.uniqueNames ∧
      numbered name (s.counter name) ∉ env.objects)

instance (env : NameEnv) (s : NameRegistry) (name : String) : Decidable (Clear env s name) :=
  inferInstanceAs (Decidable (_ ∨ _))

namespace Accounted

variable {env : NameEnv} {s t : NameRegistry} {returned : List String}

theorem generate (h : Accounted env s returned) {name : String} (hext : Enlarges s t name)
    (hentered : answer env s name ∈ t.uniqueNames) :
    Accounted env t (returned ++ [answer env s name]) := by
  constructor
  · intro r hr
    rcases List.mem_append.1 hr with hr | hr
    · exact hext.kept r (h.registered r hr)
    · rw [List.mem_singleton.1 hr]
      exact hentered
  · intro x hx
    rcases hext.new x hx with hx | rfl | hx
    · rcases h.source x hx with hx | hx | ⟨y, j, hj, rfl⟩
      · exact .inl (List.mem_append_left _ hx)
      · exact .inr (.inl hx)
      · exact .inr (.inr ⟨y, j, Nat.lt_of_lt_of_le hj (hext.counters y), rfl⟩)
    · by_cases htaken : x ∈ s.uniqueNames ∨ x ∈ env.objects
      · rcases htaken with htaken | htaken
        · rcases h.source x htaken with hx | hx | ⟨y, j, hj, rfl⟩
          · exact .inl (List.mem_append_left _ hx)
          · exact .inr (.inl hx)
          · exact .inr (.inr ⟨y, j, Nat.lt_of_lt_of_le hj (hext.counters y), rfl⟩)
        · exact .inr (.inl htaken)
      · rw [answer, if_neg htaken]
        exact .inl (List.mem_append_right _ (List.mem_singleton_self x))
    · exact .inr (.inr hx)

/-- The answer is a new name and not an object's if and only if the call was clear. -/
theorem new_iff_clear (h : Accounted env s returned) (name : String) :
    answer env s name ∉ env.objects ∧ answer env s name ∉ returned ↔ Clear env s name := by
  unfold answer Clear
  by_cases htaken : name ∈ s.uniqueNames ∨ name ∈ env.objects
  · rw [if_pos htaken, or_iff_right (fun hno => htaken.elim hno.1 hno.2)]
    constructor
    · rintro ⟨hobj, hnew⟩
      refine ⟨fun hmem => ?_, hobj⟩
      -- A registered number of `name` that its counter has not passed was returned.
      rcases h.source _ hmem with hret | hret | ⟨y, j, hj, heq⟩
      · exact hnew hret
      · exact hobj hret
      · obtain ⟨rfl, rfl⟩ := numbered_inj heq
        omega
    · rintro ⟨hfree, hobj⟩
      exact ⟨hobj, fun hret => hfree (h.registered _ hret)⟩
  · rw [if_neg htaken]
    obtain ⟨hfree, hobj⟩ := not_or.1 htaken
    exact ⟨fun _ => .inl ⟨hfree, hobj⟩, fun _ => ⟨hobj, fun hret => hfree (h.registered _ hret)⟩⟩

end Accounted

theorem unregisterName_run (name : String) (s : NameRegistry) :
    ∃ t b, unregisterName name s = (.ok b, t) ∧ (∀ x, x ∈ t.uniqueNames ↔ x ∈ s.uniqueNames) ∧
      ∀ x, t.counter x = s.counter x := by
  by_cases h : name ∈ s.uniqueNames
  · refine ⟨{ s with uniqueNames := s.uniqueNames.modify name fun e => (e.1, .free) }, true, ?_,
      fun x => Std.ExtTreeMap.mem_modify, fun x => ?_⟩
    · simp [unregisterName, h]
    · simp only [counter, Std.ExtTreeMap.getElem?_modify]
      by_cases hx : compare name x = .eq
      · rw [if_pos hx, Std.LawfulEqOrd.eq_of_compare hx]
        cases s.uniqueNames[x]? <;> rfl
      · rw [if_neg hx]
  · exact ⟨s, false, by simp [unregisterName, h], fun _ => Iff.rfl, fun _ => rfl⟩

theorem returnedNames_snoc (env : NameEnv) (cs : List NameCmd) (c : NameCmd) :
    returnedNames env (cs ++ [c]) = returnedNames env cs ++
      match ((c.run env) (afterCalls env cs)).1 with
      | .ok (.name n) => [n]
      | _ => [] := by
  rw [returnedNames, outcomes_snoc, List.filterMap_append]
  congr 1
  show List.filterMap _ [((c.run env) (afterCalls env cs)).1] = _
  rcases ((c.run env) (afterCalls env cs)).1 with (n | b) | e | _ | _ <;> rfl

/-- A call of `cci_gen_unique_name` with enough fuel, as part of a run. -/
theorem run_genUniqueName (env : NameEnv) {s : NameRegistry} {n : String} (hn : n ≠ "") :
    ∃ t, (∀ fuel, nameFuel env s ≤ fuel → genUniqueName env fuel n s = (.ok (answer env s n), t)) ∧
      NameCmd.run env (.genUniqueName n) s = (.ok (.name (answer env s n)), t) ∧
      Enlarges s t n ∧ answer env s n ∈ t.uniqueNames := by
  obtain ⟨t, hrun, hext, hans⟩ :=
    genUniqueName_run env (nameFuel env s) hn (inTheWay_lt_nameFuel env s n)
  refine ⟨t, hrun, ?_, hext, hans⟩
  show (genUniqueName env (nameFuel env s) n >>= fun r => pure (NameAnswer.name r)) s = _
  rw [Eff.bind_run_ok (hrun _ (Nat.le_refl _))]
  rfl

theorem accounted (env : NameEnv) {cs : List NameCmd} (hcs : ∀ c ∈ cs, c ≠ .genUniqueName "") :
    Accounted env (afterCalls env cs) (returnedNames env cs) := by
  induction cs using List.reverseRecOn with
  | nil =>
    refine ⟨fun r hr => (List.not_mem_nil hr).elim, fun x hx => ?_⟩
    exact absurd hx Std.ExtTreeMap.not_mem_empty
  | append_singleton cs c ih =>
    have hacc := ih fun d hd => hcs d (List.mem_append_left _ hd)
    rw [returnedNames_snoc, afterCalls, states_snoc, ← afterCalls]
    cases c with
    | genUniqueName n =>
      have hn : n ≠ "" := fun h => hcs (.genUniqueName n) (by simp) (by rw [h])
      obtain ⟨t, -, hrun, hext, hans⟩ := run_genUniqueName env (s := afterCalls env cs) hn
      rw [hrun]
      exact hacc.generate hext hans
    | unregisterName n =>
      obtain ⟨t, b, hrun, hmem, hcounter⟩ := unregisterName_run n (afterCalls env cs)
      have hcall : NameCmd.run env (.unregisterName n) (afterCalls env cs) = (.ok (.flag b), t) := by
        show (unregisterName n >>= fun b => pure (NameAnswer.flag b)) _ = _
        rw [Eff.bind_run_ok hrun]
        rfl
      rw [hcall]
      simp only [List.append_nil]
      refine ⟨fun r hr => (hmem r).2 (hacc.registered r hr), fun x hx => ?_⟩
      simp only [hcounter]
      exact hacc.source x ((hmem x).1 hx)

/-- Each call of `cci_gen_unique_name` in the run returns, and its name belongs to no SystemC object
and was not returned before. -/
def UniqueNames (env : NameEnv) (cs : List NameCmd) : Prop :=
  ∀ ds n, ds ++ [.genUniqueName n] <+: cs → ∃ r t,
    (∀ fuel, nameFuel env (afterCalls env ds) ≤ fuel →
      genUniqueName env fuel n (afterCalls env ds) = (.ok r, t)) ∧
    r ∉ env.objects ∧ r ∉ returnedNames env ds

/-- **Unique names.**  In a run of calls with non-empty names every call returns, and the returned
names are all new and none belongs to a SystemC object if and only if each call was clear. -/
theorem unique_names_exact (env : NameEnv) (cs : List NameCmd)
    (hcs : ∀ c ∈ cs, c ≠ .genUniqueName "") :
    (∀ ds n, ds ++ [.genUniqueName n] <+: cs → ∃ r t,
      ∀ fuel, nameFuel env (afterCalls env ds) ≤ fuel →
        genUniqueName env fuel n (afterCalls env ds) = (.ok r, t)) ∧
    (UniqueNames env cs ↔
      ∀ ds n, ds ++ [.genUniqueName n] <+: cs → Clear env (afterCalls env ds) n) := by
  have hname : ∀ ds n, ds ++ [NameCmd.genUniqueName n] <+: cs → n ≠ "" := by
    intro ds n hds hn
    exact hcs (.genUniqueName n) (hds.subset (by simp)) (by rw [hn])
  have hnew : ∀ ds n, ds ++ [NameCmd.genUniqueName n] <+: cs →
      ((answer env (afterCalls env ds) n ∉ env.objects ∧
        answer env (afterCalls env ds) n ∉ returnedNames env ds) ↔
      Clear env (afterCalls env ds) n) := by
    intro ds n hds
    apply Accounted.new_iff_clear
    apply accounted
    exact fun c hc => hcs c (hds.subset (List.mem_append_left _ hc))
  refine ⟨fun ds n hds => ?_, fun h ds n hds => ?_, fun h ds n hds => ?_⟩
  · obtain ⟨t, hrun, -⟩ := run_genUniqueName env (s := afterCalls env ds) (hname ds n hds)
    exact ⟨_, t, hrun⟩
  · obtain ⟨r, t, hr, hobj, hret⟩ := h ds n hds
    obtain ⟨t', hrun, -⟩ := run_genUniqueName env (s := afterCalls env ds) (hname ds n hds)
    obtain ⟨hans, -⟩ := Prod.mk.inj ((hr _ (Nat.le_refl _)).symm.trans (hrun _ (Nat.le_refl _)))
    rw [← hnew ds n hds, ← Outcome.ok.inj hans]
    exact ⟨hobj, hret⟩
  · obtain ⟨t, hrun, -⟩ := run_genUniqueName env (s := afterCalls env ds) (hname ds n hds)
    exact ⟨_, t, hrun, (hnew ds n hds).2 (h ds n hds)⟩

/-- A name that looks like a generated one is returned a second time. -/
theorem unique_names_repeated :
    ¬∀ (env : NameEnv) (cs : List NameCmd), (∀ c ∈ cs, c ≠ .genUniqueName "") →
      UniqueNames env cs := by
  intro h
  let ds : List NameCmd := [.genUniqueName "a_0", .genUniqueName "a"]
  obtain ⟨r, t, hrun, -, hnew⟩ := h ⟨∅, true⟩ (ds ++ [.genUniqueName "a"])
    (by decide) ds "a" (List.prefix_refl _)
  have heq : (genUniqueName ⟨∅, true⟩ (nameFuel ⟨∅, true⟩ (afterCalls ⟨∅, true⟩ ds)) "a"
      (afterCalls ⟨∅, true⟩ ds)).1 = .ok "a_0" := by decide +kernel
  rw [hrun _ (Nat.le_refl _)] at heq
  apply hnew
  rw [Outcome.ok.inj heq]
  decide +kernel

/-- Two conflicts of one name. -/
theorem unique_names_exact_conflicts :
    let env : NameEnv := ⟨{"top.q"}, true⟩
    let cs : List NameCmd := [.genUniqueName "a", .genUniqueName "a", .genUniqueName "a"]
    (∀ ds n, ds ++ [.genUniqueName n] <+: cs → ∃ r t,
      ∀ fuel, nameFuel env (afterCalls env ds) ≤ fuel →
        genUniqueName env fuel n (afterCalls env ds) = (.ok r, t)) ∧
    (UniqueNames env cs ↔
      ∀ ds n, ds ++ [.genUniqueName n] <+: cs → Clear env (afterCalls env ds) n) := by
  intro env cs
  exact unique_names_exact env cs (by decide)

end Cci
