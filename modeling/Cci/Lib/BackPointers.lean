import Mathlib

/-!
# Pointers and the lists of who points

Objects `H` point to targets `P`, and every target lists the objects that point to it.

* `Inverse` — the lists are exact: an object is in the list of a target when it points there, and
  then once;
* `Inverse.retarget` — moving one pointer and its entry keeps the lists exact.
-/

namespace BackPointers

variable {H P : Type} [DecidableEq H] [DecidableEq P]

/-- The lists `back` name exactly the objects that `target` sends to each `p`, each once. -/
structure Inverse (target : H → Option P) (back : P → List H) : Prop where
  mem_iff : ∀ h p, h ∈ back p ↔ target h = some p
  nodup : ∀ p, (back p).Nodup

namespace Inverse

variable {target : H → Option P} {back : P → List H}

omit [DecidableEq H] [DecidableEq P] in
theorem empty : Inverse (fun _ : H => (none : Option P)) (fun _ => []) := by
  refine ⟨fun h p => ?_, fun p => List.nodup_nil⟩
  simp

/-- How often an object stands in the list of a target. -/
theorem count (hI : Inverse target back) (h : H) (p : P) :
    (back p).count h = if target h = some p then 1 else 0 := by
  split
  · rename_i hp
    exact List.count_eq_one_of_mem (hI.nodup p) ((hI.mem_iff h p).2 hp)
  · rename_i hp
    exact List.count_eq_zero_of_not_mem fun hmem => hp ((hI.mem_iff h p).1 hmem)

/-- Point `h` elsewhere, or nowhere: its entry is removed from every list and appended to that of
the new target. -/
theorem retarget (hI : Inverse target back) (h : H) (t : Option P) :
    Inverse (Function.update target h t)
      (fun p => (back p).filter (fun g => g ≠ h) ++ if t = some p then [h] else []) := by
  constructor
  · intro g p
    by_cases hg : g = h
    · subst hg
      by_cases ht : t = some p <;> simp [ht]
    · have hsome : g ∉ (if t = some p then [h] else []) := by
        split <;> simp [hg]
      simp [hg, hsome, hI.mem_iff]
  · intro p
    have hfilter : ((back p).filter fun g => g ≠ h).Nodup := (hI.nodup p).filter _
    split
    · refine List.nodup_append.2 ⟨hfilter, List.nodup_singleton h, ?_⟩
      intro g hg g' hg'
      rw [List.mem_singleton.1 hg']
      exact of_decide_eq_true (List.mem_filter.1 hg).2
    · simpa using hfilter

omit [DecidableEq P] in
/-- A list that `h` is not in is left alone by removing `h`. -/
theorem filter_ne (hI : Inverse target back) {h : H} {p : P} (hp : target h ≠ some p) :
    (back p).filter (fun g => g ≠ h) = back p := by
  refine List.filter_eq_self.2 fun g hg => decide_eq_true fun hgh => ?_
  exact hp ((hI.mem_iff h p).1 (hgh ▸ hg))

end Inverse

end BackPointers
