import Cci.Utils.ChainWorld

/-!
# Expose sets that change

Where a parameter is entered and where its entry is removed is decided anew each time, from the
public expose sets of the brokers on the way.

* `ChainLifeCmd` — parameters coming and going, with names put into and taken out of the expose sets
  in between; `Life` tells which parameter objects exist;
* `NoDeadEntry` — no broker has an entry for an object that does not exist;
* `Misdirected` — a destruction that is directed to another broker than the one with the entry;
* `Entered` — the invariant: each object that exists has one entry, the others have none;
* `dead_entries_exact` — when no dead entry is left throughout a run.
-/

namespace Cci

open Effect ChainWatchers

variable {D : Design}

/-- Whether a parameter object exists; `failed` is an object whose constructor threw. -/
inductive Life where
  | absent | alive | failed
deriving DecidableEq, Repr

/-- The world with, as a ghost, which of its parameter objects exist. -/
structure ChainHistory (D : Design) where
  world : ChainWorld D
  life : D.Param → Life

/-- What happens on a chain: parameters coming and going, and client code changing an expose set. -/
inductive ChainLifeCmd (D : Design) where
  | construct (h : D.BrokerHandle) (p : D.Param) (a : ParamArgs (D.Value p)) : ChainLifeCmd D
  | constructFromCciValue (h : D.BrokerHandle) (p : D.Param) (c : D.CciValue)
      (a : ParamArgs Unit) : ChainLifeCmd D
  | destroy (p : D.Param) : ChainLifeCmd D
  | insertExpose (i : ℕ) (parname : String) : ChainLifeCmd D
  | eraseExpose (i : ℕ) (parname : String) : ChainLifeCmd D

/-- A change of the public set `expose` of one broker. -/
def changeExpose (i : ℕ) (f : Std.ExtTreeSet String → Std.ExtTreeSet String) :
    Eff Report (ChainWorld D) Unit :=
  (chainLens D).modify fun ch => Function.update ch i { ch i with expose := f (ch i).expose }

namespace ChainLifeCmd

variable [Inhabited D.CciValue]
variable (L : ChainWatchers D) (I : Interp D (BrokerChain D.Param D.CciValue))

def run : ChainLifeCmd D → Eff Report (ChainWorld D) Unit
  | .construct h p a => L.construct I h p a
  | .constructFromCciValue h p c a => L.constructFromCciValue I h p c a
  | .destroy p => L.destroy I p
  | .insertExpose i n => changeExpose i fun s => s.insert n
  | .eraseExpose i n => changeExpose i fun s => s.erase n

/-- An object is constructed where there is none and destroyed where there is one. -/
def Enabled (life : D.Param → Life) : ChainLifeCmd D → Prop
  | .construct _ p _ | .constructFromCciValue _ p _ _ => life p = .absent
  | .destroy p => life p = .alive
  | .insertExpose _ _ | .eraseExpose _ _ => True

instance (life : D.Param → Life) : (c : ChainLifeCmd D) → Decidable (c.Enabled life)
  | .construct _ p _ | .constructFromCciValue _ p _ _ =>
      inferInstanceAs (Decidable (life p = .absent))
  | .destroy p => inferInstanceAs (Decidable (life p = .alive))
  | .insertExpose _ _ | .eraseExpose _ _ => inferInstanceAs (Decidable True)

/-- Which objects exist after a command with the given outcome. -/
def after (life : D.Param → Life) (o : Outcome Report Unit) : ChainLifeCmd D → D.Param → Life
  | .construct _ p _ | .constructFromCciValue _ p _ _ =>
      Function.update life p (match o with | .ok _ => .alive | _ => .failed)
  | .destroy p => Function.update life p .absent
  | .insertExpose _ _ | .eraseExpose _ _ => life

/-- A command of a run; one that is not enabled is no step. -/
def exec (c : ChainLifeCmd D) : Eff Report (ChainHistory D) Unit := fun s =>
  if c.Enabled s.life then
    ((c.run L I s.world).1, ⟨(c.run L I s.world).2, c.after s.life (c.run L I s.world).1⟩)
  else (.abort, s)

end ChainLifeCmd

/-- No broker has an entry for an object that does not exist. -/
def NoDeadEntry (s : ChainHistory D) : Prop :=
  ∀ p, s.life p = .absent → ∀ j n, entry s.world j n ≠ some p

/-- The command destroys a parameter whose name now leads to another broker than the one that has its
entry. -/
def Misdirected (L : ChainWatchers D) (s : ChainHistory D) (c : ChainLifeCmd D) : Prop :=
  ∃ p, c = .destroy p ∧ ∃ j, entry s.world j (s.world.param p).mName = some p ∧
    responsible L s.world p ≠ j

/-- Each object that exists has exactly one entry, under its name, and the others have none. -/
structure Entered (s : ChainHistory D) : Prop where
  absent : NoDeadEntry s
  alive : ∀ p, s.life p = .alive → ∃ r, ∀ j n, entry s.world j n = some p ↔
    j = r ∧ n = (s.world.param p).mName

namespace Entered

variable {s t : ChainHistory D}

/-- Only the entries and names of parameters that keep their status need to be looked at. -/
theorem congr (h : Entered s) {p : D.Param} (hlife : ∀ q, q ≠ p → t.life q = s.life q)
    (hname : ∀ q, q ≠ p → (t.world.param q).mName = (s.world.param q).mName)
    (hentry : ∀ q, q ≠ p → ∀ j n, s.life q = .absent ∨ s.life q = .alive →
      (entry t.world j n = some q ↔ entry s.world j n = some q))
    (habsent : t.life p = .absent → ∀ j n, entry t.world j n ≠ some p)
    (halive : t.life p = .alive → ∃ r, ∀ j n, entry t.world j n = some p ↔
      j = r ∧ n = (t.world.param p).mName) : Entered t where
  absent q hq j n := by
    by_cases hqp : q = p
    · subst hqp
      exact habsent hq j n
    · rw [hlife q hqp] at hq
      rw [ne_eq, hentry q hqp j n (.inl hq)]
      exact h.absent q hq j n
  alive q hq := by
    by_cases hqp : q = p
    · subst hqp
      exact halive hq
    · rw [hlife q hqp] at hq
      obtain ⟨r, hr⟩ := h.alive q hq
      refine ⟨r, fun j n => ?_⟩
      rw [hentry q hqp j n (.inr hq), hname q hqp]
      exact hr j n

/-- Only the store matters. -/
theorem of_store (h : Entered s) {w : ChainWorld D} (hw : w.store = s.world.store) :
    Entered ⟨w, s.life⟩ := by
  have hentry : entry w = entry s.world := by
    funext j n
    show (w.store.broker j).getOrigParam n = _
    rw [hw]
    rfl
  have hname : ∀ q, (w.param q).mName = (s.world.param q).mName := by
    intro q
    rw [World.param, hw]
    rfl
  constructor
  · intro p hp j n
    show entry w j n ≠ some p
    rw [hentry]
    exact h.absent p hp j n
  · intro p hp
    show ∃ r, ∀ j n, entry w j n = some p ↔ j = r ∧ n = (w.param p).mName
    rw [hentry, hname]
    exact h.alive p hp

/-- A parameter that was not entered is not looked at any more. -/
theorem fail (h : Entered s) (p : D.Param) :
    Entered ⟨s.world, Function.update s.life p .failed⟩ := by
  refine h.congr (p := p) (fun q hq => Function.update_of_ne hq _ _) (fun _ _ => rfl)
    (fun _ _ _ _ _ => Iff.rfl) (fun habsent => ?_) (fun halive => ?_)
  · simp only [Function.update_self] at habsent
    cases habsent
  · simp only [Function.update_self] at halive
    cases halive

end Entered

theorem changeExpose_entry (i : ℕ) (f : Std.ExtTreeSet String → Std.ExtTreeSet String)
    (w : ChainWorld D) (j : ℕ) (n : String) :
    entry (changeExpose i f w).2 j n = entry w j n := by
  show (Function.update w.store.broker i _ j).getOrigParam n = (w.store.broker j).getOrigParam n
  by_cases hj : j = i
  · subst hj
    rw [Function.update_self]
    rfl
  · rw [Function.update_of_ne hj]

section

variable {L : ChainWatchers D} {I : Interp D (BrokerChain D.Param D.CciValue)}

/-- A destruction that is directed to the broker with the entry removes it. -/
theorem Entered.destroy (hL : L.Outside) {s : ChainHistory D} (h : Entered s) {p : D.Param}
    (hp : s.life p = .alive) (hdirected : ¬Misdirected L s (.destroy p)) :
    Entered ⟨(L.destroy I p s.world).2, Function.update s.life p .absent⟩ := by
  obtain ⟨hsame, hentry⟩ := destroy_step hL (I := I) s.world p
  obtain ⟨r, hr⟩ := h.alive p hp
  have hhere : entry s.world r (s.world.param p).mName = some p := (hr _ _).2 ⟨rfl, rfl⟩
  have hresp : responsible L s.world p = r := by
    by_contra hne
    exact hdirected ⟨p, rfl, r, hhere, hne⟩
  rw [hresp] at hentry
  refine h.congr (p := p) (fun q hq => Function.update_of_ne hq _ _) (fun q _ => hsame.names q)
    (fun q hq j n _ => ?_) (fun _ j n hmem => ?_) (fun halive => ?_)
  · rw [hentry]
    refine and_iff_right_of_imp fun hmem hjn => ?_
    obtain ⟨rfl, rfl⟩ := hjn
    rw [hhere] at hmem
    exact hq (Option.some.inj hmem).symm
  · obtain ⟨hoff, hmem⟩ := (hentry j n p).1 hmem
    exact hoff ((hr j n).1 hmem)
  · simp only [Function.update_self] at halive
    cases halive

/-- A destruction that is directed to another broker leaves the entry. -/
theorem Entered.misdirected (hL : L.Outside) {s : ChainHistory D} {p : D.Param}
    (hbad : Misdirected L s (.destroy p)) :
    ¬NoDeadEntry ⟨(L.destroy I p s.world).2, Function.update s.life p .absent⟩ := by
  obtain ⟨-, hentry⟩ := destroy_step hL (I := I) s.world p
  obtain ⟨q, hq, j, hmem, hne⟩ := hbad
  cases hq
  intro hno
  refine hno p (Function.update_self p _ _) j _ ((hentry j _ p).2 ⟨?_, hmem⟩)
  rintro ⟨rfl, -⟩
  exact hne rfl

variable [Inhabited D.CciValue]

/-- A constructor that came back has entered its parameter; of one that threw nothing is asked. -/
theorem Entered.construct (hL : L.Outside) {s : ChainHistory D} (h : Entered s)
    {b : D.BrokerHandle} {p : D.Param} {a : ParamArgs (D.Value p)} (hp : s.life p = .absent)
    (ho : (L.construct I b p a s.world).1.returned = true) :
    Entered ⟨(L.construct I b p a s.world).2, Function.update s.life p
      (match (L.construct I b p a s.world).1 with | .ok _ => .alive | _ => .failed)⟩ := by
  obtain ⟨hsame, hentry⟩ := construct_step hL ho
  have hname : ∀ q, q ≠ p → ((L.construct I b p a s.world).2.param q).mName =
      (s.world.param q).mName := by
    intro q hq
    rw [hsame.names, withObject_param_of_ne b a s.world hq]
  have hown : ((L.construct I b p a s.world).2.param p).mName = a.name := by
    rw [hsame.names, withObject_param]
    rfl
  rcases hentry with ⟨⟨e, he⟩, hentry⟩ | hentry
  · rw [he]
    refine (h.fail p).congr (p := p) (fun q _ => rfl) hname (fun q _ j n _ => by rw [hentry])
      (fun habsent => ?_) (fun halive => ?_)
    · simp only [Function.update_self] at habsent
      cases habsent
    · simp only [Function.update_self] at halive
      cases halive
  · refine h.congr (p := p) (fun q hq => Function.update_of_ne hq _ _) hname
      (fun q hq j n _ => ?_) (fun habsent => ?_) (fun _ => ?_)
    · rw [hentry]
      exact or_iff_right fun hnew => hq hnew.1
    · simp only [Function.update_self] at habsent
      split at habsent <;> cases habsent
    · refine ⟨s.world.store.broker.resp a.name (L.index b), fun j n => ?_⟩
      rw [hentry, hown, or_iff_left (h.absent p hp j n)]
      exact and_iff_right rfl

end

/-- The command does not stop in the middle, and a good one keeps the invariant. -/
theorem Entered.exec {L : ChainWatchers D} {I : Interp D (BrokerChain D.Param D.CciValue)}
    [Inhabited D.CciValue] (hL : L.Outside) {s : ChainHistory D} (h : Entered s)
    {c : ChainLifeCmd D} (hdirected : ¬Misdirected L s c)
    (ho : (c.exec L I s).1.returned = true) : Entered (c.exec L I s).2 := by
  by_cases hen : c.Enabled s.life
  swap
  · simp only [ChainLifeCmd.exec, if_neg hen] at ho
    cases ho
  have hrun : c.exec L I s =
      ((c.run L I s.world).1, ⟨(c.run L I s.world).2, c.after s.life (c.run L I s.world).1⟩) :=
    if_pos hen
  rw [hrun] at ho ⊢
  have hexpose : ∀ (i : ℕ) (f : Std.ExtTreeSet String → Std.ExtTreeSet String),
      Entered ⟨(changeExpose i f s.world).2, s.life⟩ := by
    intro i f
    constructor
    · intro p hp j n
      rw [changeExpose_entry]
      exact h.absent p hp j n
    · intro p hp
      obtain ⟨r, hr⟩ := h.alive p hp
      refine ⟨r, fun j n => ?_⟩
      rw [changeExpose_entry]
      exact hr j n
  cases c with
  | construct b p a => exact h.construct hL hen ho
  | constructFromCciValue b p c a =>
    have hstore := cciValueGet_store p c s.world
    show Entered ⟨(L.constructFromCciValue I b p c a s.world).2, Function.update s.life p
      (match (L.constructFromCciValue I b p c a s.world).1 with | .ok _ => .alive | _ => .failed)⟩
    have ho' : (L.constructFromCciValue I b p c a s.world).1.returned = true := ho
    rw [constructFromCciValue, Eff.bind_run] at ho' ⊢
    rcases hr : cciValueGet p c s.world with ⟨d | e | _ | _, w⟩ <;> rw [hr] at ho' hstore
    · exact (h.of_store hstore).construct hL hen ho'
    · exact (h.of_store hstore).fail p
    · cases ho'
    · cases ho'
  | destroy p => exact h.destroy hL hen hdirected
  | insertExpose i n => exact hexpose i _
  | eraseExpose i n => exact hexpose i _

/-- **Dead entries.**  On a chain that starts without parameters no broker has, throughout a run, an
entry for a destroyed parameter if and only if no destruction is directed to another broker than the
one with the parameter's entry. -/
theorem dead_entries_exact [Inhabited D.CciValue] (L : ChainWatchers D) (hL : L.Outside)
    (I : Interp D (BrokerChain D.Param D.CciValue)) {s t : ChainHistory D}
    (hnone : ∀ p, s.life p = .absent) (hempty : ∀ j n, entry s.world j n = none)
    {cs : List (ChainLifeCmd D)} (hrun : Runs (ChainLifeCmd.exec L I) s cs t) :
    (∀ ds u, ds <+: cs → Runs (ChainLifeCmd.exec L I) s ds u → NoDeadEntry u) ↔
      ∀ ds c u, ds ++ [c] <+: cs → Runs (ChainLifeCmd.exec L I) s ds u → ¬Misdirected L u c := by
  refine hrun.throughout_iff (I := Entered) (fun u hu => hu.absent)
    (fun c u hu hgood ho => hu.exec hL hgood ho) (fun c u hu hbad ho => ?_) ⟨?_, ?_⟩
  · have hbad' := hbad
    obtain ⟨p, rfl, -⟩ := hbad
    by_cases hen : u.life p = .alive
    · rw [show (ChainLifeCmd.destroy p).exec L I u = _ from if_pos hen]
      exact Entered.misdirected hL hbad'
    · rw [show (ChainLifeCmd.destroy p).exec L I u = _ from if_neg hen] at ho
      cases ho
  · intro p _ j n
    rw [hempty]
    exact nofun
  · intro p hp
    rw [hnone p] at hp
    cases hp

/-- A private broker, number 1, below the global one, and a parameter that is constructed on it. -/
def privateWatchers : ChainWatchers (natDesign Unit true) :=
  ⟨fun _ => 1, fun _ _ => pure (), 0, none⟩

/-- Nothing is constructed yet. -/
def privateHistory : ChainHistory (natDesign Unit true) :=
  let chain : BrokerChain Unit ℕ := fun _ => {}
  ⟨natWorld true (fun _ => "") (fun _ => 0) .unknown chain, fun _ => .absent⟩

/-- The parameter is entered at the global broker while its name is exposed; after that the private
broker removes nothing. -/
theorem dead_entry_left :
    ¬∀ (L : ChainWatchers (natDesign Unit true)), L.Outside →
      ∀ (I : Interp (natDesign Unit true) (BrokerChain Unit ℕ))
        (s t : ChainHistory (natDesign Unit true)) (cs : List (ChainLifeCmd (natDesign Unit true))),
        (∀ p, s.life p = .absent) → (∀ j n, entry s.world j n = none) →
        Runs (ChainLifeCmd.exec L I) s cs t → NoDeadEntry t := by
  intro h
  let I : Interp (natDesign Unit true) (BrokerChain Unit ℕ) := ⟨fun _ _ => Eff.diverge, 0⟩
  let cs : List (ChainLifeCmd (natDesign Unit true)) := [.insertExpose 1 "top.p",
    .construct () () ⟨"top.p", (1 : ℕ), .named "owner", 1⟩, .eraseExpose 1 "top.p", .destroy ()]
  let t := states (ChainLifeCmd.exec privateWatchers I) privateHistory cs
  have hrun : Runs (ChainLifeCmd.exec privateWatchers I) privateHistory cs t :=
    .cons (by decide +kernel) (.cons (by decide +kernel) (.cons (by decide +kernel)
      (.cons (by decide +kernel) (.nil _))))
  have hleft : (entry t.world 0 "top.p").isSome = true := by decide +kernel
  obtain ⟨p, hp⟩ := Option.isSome_iff_exists.1 hleft
  exact h privateWatchers ⟨fun _ _ _ => rfl, fun _ _ _ => rfl, fun _ _ _ _ => rfl⟩ I privateHistory t
    cs (fun _ => rfl) (fun _ _ => rfl) hrun p (show t.life () = .absent by decide +kernel) 0 "top.p" hp

/-- An expose set that changes for another name. -/
theorem dead_entries_exact_other_name :
    let L := privateWatchers
    let I : Interp (natDesign Unit true) (BrokerChain Unit ℕ) := ⟨fun _ _ => Eff.diverge, 0⟩
    let cs : List (ChainLifeCmd (natDesign Unit true)) := [.insertExpose 1 "top.p",
      .construct () () ⟨"top.p", (1 : ℕ), .named "owner", 1⟩, .insertExpose 1 "top.q", .destroy ()]
    (∀ ds u, ds <+: cs → Runs (ChainLifeCmd.exec L I) privateHistory ds u → NoDeadEntry u) ↔
      ∀ ds c u, ds ++ [c] <+: cs → Runs (ChainLifeCmd.exec L I) privateHistory ds u →
        ¬Misdirected L u c := by
  intro L I cs
  have hrun : Runs (ChainLifeCmd.exec L I) privateHistory cs
      (states (ChainLifeCmd.exec L I) privateHistory cs) :=
    .cons (by decide +kernel) (.cons (by decide +kernel) (.cons (by decide +kernel)
      (.cons (by decide +kernel) (.nil _))))
  exact dead_entries_exact L ⟨fun _ _ _ => rfl, fun _ _ _ => rfl, fun _ _ _ _ => rfl⟩ I
    (fun _ => rfl) (fun _ _ => rfl) hrun

end Cci
