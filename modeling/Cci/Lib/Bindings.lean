import Mathlib

/-!
# Bindings of a finite map

What is counted over a finite map changes with one binding at a time.

* `bindings` — the bindings as a multiset;
* `bindings_insert`, `bindings_erase` — one binding apart from the others;
* `readings` — the bindings beside what a valuation says about their keys.
-/

namespace Bindings

variable {κ β γ : Type} [DecidableEq κ]

/-- The bindings of `m`. -/
def bindings (m : AList fun _ : κ => β) : Multiset (Sigma fun _ : κ => β) := ↑m.entries

theorem bindings_insert (m : AList fun _ : κ => β) (k : κ) (b : β) :
    bindings (m.insert k b) = ⟨k, b⟩ ::ₘ bindings (m.erase k) := by
  rw [bindings, AList.entries_insert]
  rfl

theorem bindings_insert_new {m : AList fun _ : κ => β} {k : κ} (hk : k ∉ m) (b : β) :
    bindings (m.insert k b) = ⟨k, b⟩ ::ₘ bindings m := by
  rw [bindings, AList.entries_insert_of_notMem hk]
  rfl

theorem bindings_erase {m : AList fun _ : κ => β} {k : κ} {b : β} (hk : m.lookup k = some b) :
    bindings m = ⟨k, b⟩ ::ₘ bindings (m.erase k) := by
  have hmem : k ∈ m.entries.keys := AList.lookup_isSome.1 (by rw [hk]; rfl)
  obtain ⟨b', l₁, l₂, hnew, hentries, herase⟩ := List.exists_of_kerase hmem
  have hb : b' = b := by
    have hfound : ⟨k, b'⟩ ∈ m.entries := by
      rw [hentries]
      exact List.mem_append_right _ List.mem_cons_self
    exact Option.some.inj ((AList.mem_lookup_iff.2 hfound).symm.trans hk)
  subst hb
  have hperm : m.entries.Perm (⟨k, b'⟩ :: m.entries.kerase k) := by
    rw [herase, hentries]
    exact List.perm_middle
  exact Multiset.coe_eq_coe.2 hperm

theorem length_erase {m : AList fun _ : κ => β} {k : κ} {b : β} (hk : m.lookup k = some b) :
    m.entries.length = (m.erase k).entries.length + 1 := by
  have hcard := congrArg Multiset.card (bindings_erase hk)
  rwa [Multiset.card_cons] at hcard

theorem mem_bindings {m : AList fun _ : κ => β} {k : κ} {b : β} :
    ⟨k, b⟩ ∈ bindings m ↔ m.lookup k = some b := AList.mem_lookup_iff.symm

/-! ### Readings -/

/-- What is bound, beside what `f` says about the key. -/
def readings (m : AList fun _ : κ => β) (f : κ → γ) : Multiset (β × γ) :=
  (bindings m).map fun x => (x.2, f x.1)

theorem mem_readings {m : AList fun _ : κ => β} {f : κ → γ} {k : κ} {b : β}
    (hk : m.lookup k = some b) : (b, f k) ∈ readings m f :=
  Multiset.mem_map.2 ⟨⟨k, b⟩, mem_bindings.2 hk, rfl⟩

theorem readings_erase {m : AList fun _ : κ => β} {k : κ} {b : β} (hk : m.lookup k = some b)
    (f : κ → γ) : readings m f = (b, f k) ::ₘ readings (m.erase k) f := by
  rw [readings, bindings_erase hk, Multiset.map_cons]
  rfl

/-- A new value of a key does not show where the key is not bound. -/
theorem readings_update_of_notMem {m : AList fun _ : κ => β} {k : κ} (hk : k ∉ m) (f : κ → γ)
    (c : γ) : readings m (Function.update f k c) = readings m f := by
  refine Multiset.map_congr rfl fun x hx => ?_
  have hne : x.1 ≠ k := by
    rintro rfl
    exact hk (AList.lookup_isSome.1 (by rw [mem_bindings.1 hx]; rfl))
  rw [Function.update_of_ne hne]

theorem readings_insert (m : AList fun _ : κ => β) (k : κ) (b : β) (f : κ → γ) (c : γ) :
    readings (m.insert k b) (Function.update f k c) = (b, c) ::ₘ readings (m.erase k) f := by
  have herase : k ∉ m.erase k := fun h => (AList.mem_erase.1 h).1 rfl
  rw [readings, bindings_insert, Multiset.map_cons, Function.update_self,
    ← readings_update_of_notMem herase f c]
  rfl

theorem readings_insert_new {m : AList fun _ : κ => β} {k : κ} (hk : k ∉ m) (b : β) (f : κ → γ)
    (c : γ) : readings (m.insert k b) (Function.update f k c) = (b, c) ::ₘ readings m f := by
  rw [readings, bindings_insert_new hk, Multiset.map_cons, Function.update_self,
    ← readings_update_of_notMem hk f c]
  rfl

end Bindings
