import Mathlib

/-!
# Words of a line and lines of a stream

What line-oriented text formats are made of, over any alphabet.

* `trim`, `Trimmed` — a list without the blanks at its ends;
* `words` — the nonempty pieces between separators;
* `Latest` — what the latest line of a kind says;
* `Input`, `Input.getline` — a stream that is read line by line through a buffer of fixed size;
* `Input.lines` — the buffers a loop of `getline` calls gets to see, and `visible`, which says what
  they are: the lines up to the first one that does not fit, cut to the size of the buffer.
-/

namespace Text

variable {α : Type}

/-! ### Trimming -/

section

variable (blank : α → Bool)

/-- A list without the blanks at its ends. -/
def trim (l : List α) : List α := (l.dropWhile blank).rdropWhile blank

/-- No blank at either end. -/
structure Trimmed (l : List α) : Prop where
  head : ∀ c ∈ l.head?, blank c = false
  last : ∀ c ∈ l.getLast?, blank c = false

variable {blank}

theorem dropWhile_head {l : List α} (h : ∀ c ∈ l.head?, blank c = false) : l.dropWhile blank = l := by
  cases l with
  | nil => rfl
  | cons c l => rw [List.dropWhile_cons_of_neg (by rw [h c rfl]; simp)]

theorem head_dropWhile (l : List α) : ∀ c ∈ (l.dropWhile blank).head?, blank c = false := by
  intro c hc
  have h := List.head?_dropWhile_not blank l
  rw [Option.mem_def.1 hc] at h
  exact h

theorem rdropWhile_last {l : List α} (h : ∀ c ∈ l.getLast?, blank c = false) :
    l.rdropWhile blank = l := by
  rw [List.rdropWhile, dropWhile_head, List.reverse_reverse]
  rw [List.head?_reverse]
  exact h

theorem Trimmed.trim_eq {l : List α} (h : Trimmed blank l) : trim blank l = l := by
  rw [trim, dropWhile_head h.head, rdropWhile_last h.last]

end

/-! ### Words -/

section

variable (sep : α → Bool)

/-- The nonempty pieces of a list between separators. -/
def words (l : List α) : List (List α) := (l.splitOnP sep).filter fun w => !w.isEmpty

variable {sep}

theorem words_nil : words sep [] = [] := rfl

theorem words_cons_sep {s : α} (hs : sep s) (l : List α) : words sep (s :: l) = words sep l := by
  have hsplit : ([] ++ s :: l).splitOnP sep = [] :: l.splitOnP sep :=
    List.splitOnP_append_cons_of_forall_mem (List.forall_mem_nil _) s hs l
  rw [List.nil_append] at hsplit
  rw [words, hsplit, List.filter_cons_of_neg (by simp)]
  rfl

theorem words_word {w : List α} (hw : ∀ c ∈ w, sep c = false) (hne : w ≠ []) :
    words sep w = [w] := by
  rw [words, List.splitOnP_eq_singleton hw]
  simp [hne]

theorem words_word_cons {w : List α} (hw : ∀ c ∈ w, sep c = false) (hne : w ≠ []) {s : α}
    (hs : sep s) (l : List α) : words sep (w ++ s :: l) = w :: words sep l := by
  rw [words, List.splitOnP_append_cons_of_forall_mem hw s hs,
    List.filter_cons_of_pos (by simpa using hne)]
  rfl

/-- No character of a list is a separator, or there is a first one. -/
theorem split_first (sep : α → Bool) (l : List α) :
    (∀ c ∈ l, sep c = false) ∨
      ∃ w s l', (∀ c ∈ w, sep c = false) ∧ sep s ∧ l = w ++ s :: l' := by
  induction l with
  | nil => exact .inl (List.forall_mem_nil _)
  | cons c l ih =>
    cases hc : sep c with
    | true => exact .inr ⟨[], c, l, List.forall_mem_nil _, hc, rfl⟩
    | false =>
      rcases ih with hall | ⟨w, s, l', hw, hs, hl⟩
      · exact .inl (List.forall_mem_cons.2 ⟨hc, hall⟩)
      · exact .inr ⟨c :: w, s, l', List.forall_mem_cons.2 ⟨hc, hw⟩, hs, by rw [hl]; rfl⟩

theorem findIdx?_word_cons {w : List α} (hw : ∀ c ∈ w, sep c = false) {s : α} (hs : sep s)
    (l : List α) : (w ++ s :: l).findIdx? sep = some w.length := by
  rw [List.findIdx?_append, List.findIdx?_eq_none_iff.2 hw, List.findIdx?_cons, if_pos hs]
  simp

/-- The words, by the first separator. -/
theorem words_of_findIdx? {l : List α} {i : ℕ} (h : l.findIdx? sep = some i) :
    words sep l = (if 0 < i then [l.take i] else []) ++ words sep (l.drop (i + 1)) := by
  rcases split_first sep l with hall | ⟨w, s, l', hw, hs, rfl⟩
  · rw [List.findIdx?_eq_none_iff.2 hall] at h
    cases h
  · rw [findIdx?_word_cons hw hs] at h
    cases h
    have hdrop : (w ++ s :: l').drop (w.length + 1) = l' := by
      rw [List.drop_append]
      simp
    rw [List.take_left, hdrop]
    cases w with
    | nil => exact words_cons_sep hs l'
    | cons c w => exact words_word_cons hw (List.cons_ne_nil c w) hs l'

theorem words_of_findIdx?_none {l : List α} (h : l.findIdx? sep = none) :
    words sep l = if 0 < l.length then [l] else [] := by
  cases l with
  | nil => rfl
  | cons c l => exact words_word (List.findIdx?_eq_none_iff.1 h) (List.cons_ne_nil c l)

theorem words_eq_nil_iff (l : List α) : words sep l = [] ↔ ∀ c ∈ l, sep c := by
  induction l with
  | nil => simp [words_nil]
  | cons c l ih =>
    by_cases hc : sep c
    · rw [words_cons_sep hc, ih, List.forall_mem_cons]
      exact (and_iff_right hc).symm
    · constructor
      · intro h
        exfalso
        rcases split_first sep (c :: l) with hall | ⟨w, s, l', hw, hs, hl⟩
        · rw [words_word hall (List.cons_ne_nil c l)] at h
          cases h
        · cases w with
          | nil =>
            cases hl
            exact hc hs
          | cons d w =>
            rw [hl, words_word_cons hw (List.cons_ne_nil d w) hs] at h
            cases h
      · exact fun h => absurd (h c List.mem_cons_self) hc

end

/-! ### The latest of the lines -/

section

variable {P : List α → α → Prop} {Q : α → Prop}

/-- Some member, with what is before it, is as `P` says, and no later one is as `Q` says. -/
def Latest (P : List α → α → Prop) (Q : α → Prop) (ls : List α) : Prop :=
  ∃ before l after, ls = before ++ l :: after ∧ P before l ∧ ∀ l' ∈ after, ¬Q l'

theorem not_latest_nil : ¬Latest P Q [] := by
  rintro ⟨before, l, after, h, -⟩
  exact List.append_ne_nil_of_right_ne_nil before (List.cons_ne_nil l after) h.symm

theorem latest_snoc (ls : List α) (l : α) :
    Latest P Q (ls ++ [l]) ↔ P ls l ∨ ¬Q l ∧ Latest P Q ls := by
  constructor
  · rintro ⟨before, l', after, h, hP, hQ⟩
    rcases List.eq_nil_or_concat after with rfl | ⟨after, l'', rfl⟩
    · obtain ⟨rfl, hl⟩ := List.append_inj' h rfl
      cases hl
      exact .inl hP
    · rw [List.concat_eq_append, ← List.cons_append, ← List.append_assoc] at h
      obtain ⟨rfl, hl⟩ := List.append_inj' h rfl
      cases hl
      rw [List.concat_eq_append] at hQ
      exact .inr ⟨hQ l List.mem_concat_self, before, l', after, rfl, hP,
        fun z hz => hQ z (List.mem_append_left _ hz)⟩
  · rintro (hP | ⟨hl, before, l', after, rfl, hP, hQ⟩)
    · exact ⟨ls, l, [], rfl, hP, List.forall_mem_nil _⟩
    · refine ⟨before, l', after ++ [l], by simp, hP, fun z hz => ?_⟩
      rcases List.mem_append.1 hz with hz | hz
      · exact hQ z hz
      · rw [List.mem_singleton.1 hz]
        exact hl

end

/-! ### Streams -/

/-- An input stream: the characters left, and its state bits. -/
structure Input (α : Type) where
  rest : List α
  eof : Bool := false
  fail : Bool := false

variable [DecidableEq α]

/-- Extraction up to a delimiter, which is taken but not stored, of at most `room` characters. -/
def extract (delim : α) : ℕ → List α → List α × Input α
  | _, [] => ([], ⟨[], true, false⟩)
  | 0, c :: rest => if c = delim then ([], ⟨rest, false, false⟩) else ([], ⟨c :: rest, false, true⟩)
  | room + 1, c :: rest =>
      if c = delim then ([], ⟨rest, false, false⟩)
      else (c :: (extract delim room rest).1, (extract delim room rest).2)

namespace Input

variable (delim : α) (size : ℕ)

/-- `getline` into a buffer of `size` characters, its terminator included.  A stream that is not
good is left alone, as failed; so is one at whose end nothing was extracted. -/
def getline (is : Input α) : List α × Input α :=
  if is.eof || is.fail then ([], { is with fail := true })
  else
    let r := extract delim (size - 1) is.rest
    if r.2.eof && r.1.isEmpty then (r.1, { r.2 with fail := true }) else r

/-- How many characters and calls of `getline` a stream still has in it. -/
def left (is : Input α) : ℕ :=
  if is.fail then 0 else if is.eof then 1 else is.rest.length + 2

variable {delim size}

theorem left_extract (room : ℕ) (l : List α) (h : (extract delim room l).2.fail = false) :
    (extract delim room l).2.left < l.length + 2 := by
  induction room generalizing l with
  | zero =>
    cases l with
    | nil => simp [extract, left]
    | cons c l =>
      by_cases hc : c = delim
      · simp [extract, left, hc]
      · simp [extract, hc] at h
  | succ room ih =>
    cases l with
    | nil => simp [extract, left]
    | cons c l =>
      by_cases hc : c = delim
      · simp [extract, left, hc]
      · have hlt := ih l (by simpa [extract, hc] using h)
        simp only [extract, if_neg hc, List.length_cons]
        omega

theorem left_getline {is : Input α} (h : is.fail = false) :
    (is.getline delim size).2.left < is.left := by
  by_cases heof : is.eof = true
  · simp [getline, left, heof, h]
  · have hleft : is.left = is.rest.length + 2 := by simp [left, heof, h]
    rw [hleft]
    simp only [getline, heof, h, Bool.or_false, Bool.false_eq_true, if_false]
    split
    · show left _ < _
      simp [left]
    · cases hfail : (extract delim (size - 1) is.rest).2.fail with
      | true => simp [left, hfail]
      | false => exact left_extract _ _ hfail

variable (delim size)

/-- The buffers that the loop `while (is) is.getline(…)` gets to see. -/
def lines (is : Input α) : List (List α) :=
  if is.fail then [] else (is.getline delim size).1 :: (is.getline delim size).2.lines
termination_by is.left
decreasing_by
  rename_i h
  exact left_getline (by simpa using h)

/-- The lines up to the first that does not fit, and as much of that one as fits. -/
def visible : List (List α) → List (List α)
  | [] => []
  | l :: ls => if l.length < size then l :: visible ls else [l.take (size - 1)]

variable {delim size}

theorem lines_failed (is : Input α) (h : is.fail = true) : is.lines delim size = [] := by
  rw [lines, if_pos h]

/-- What a line that fits makes of the extraction. -/
theorem extract_line {l : List α} (hl : delim ∉ l) (room : ℕ) (hroom : l.length ≤ room)
    (rest : List α) : extract delim room (l ++ delim :: rest) = (l, ⟨rest, false, false⟩) := by
  induction l generalizing room with
  | nil => cases room <;> simp [extract]
  | cons c l ih =>
    cases room with
    | zero => cases hroom
    | succ room =>
      have hne : c ≠ delim := fun h => hl (h ▸ List.mem_cons_self)
      have htail := ih (fun h => hl (List.mem_cons_of_mem _ h)) room (Nat.le_of_succ_le_succ hroom)
      show extract delim (room + 1) (c :: (l ++ delim :: rest)) = _
      rw [extract, if_neg hne, htail]

/-- The last line needs no delimiter. -/
theorem extract_last {l : List α} (hl : delim ∉ l) (room : ℕ) (hroom : l.length ≤ room) :
    extract delim room l = (l, ⟨[], true, false⟩) := by
  induction l generalizing room with
  | nil => cases room <;> rfl
  | cons c l ih =>
    cases room with
    | zero => cases hroom
    | succ room =>
      have hne : c ≠ delim := fun h => hl (h ▸ List.mem_cons_self)
      have htail := ih (fun h => hl (List.mem_cons_of_mem _ h)) room (Nat.le_of_succ_le_succ hroom)
      rw [extract, if_neg hne, htail]

/-- A line that does not fit fails the stream. -/
theorem extract_long {l : List α} (hl : delim ∉ l) {c : α} (hc : c ≠ delim) (rest : List α) :
    extract delim l.length (l ++ c :: rest) = (l, ⟨c :: rest, false, true⟩) := by
  induction l with
  | nil => simp [extract, hc]
  | cons d l ih =>
    have hne : d ≠ delim := fun h => hl (h ▸ List.mem_cons_self)
    show extract delim (l.length + 1) (d :: (l ++ c :: rest)) = _
    rw [extract, if_neg hne, ih fun h => hl (List.mem_cons_of_mem _ h)]

theorem lines_line {l : List α} (hl : delim ∉ l) (hlen : l.length < size) (rest : List α) :
    lines delim size ⟨l ++ delim :: rest, false, false⟩ =
      l :: lines delim size ⟨rest, false, false⟩ := by
  rw [lines]
  simp [getline, extract_line hl (size - 1) (by omega) rest]

theorem lines_last {l : List α} (hl : delim ∉ l) (hlen : l.length < size) :
    lines delim size ⟨l, false, false⟩ = if l = [] then [[]] else [l, []] := by
  have hget : getline delim size ⟨l, false, false⟩ = (l, ⟨[], true, l.isEmpty⟩) := by
    cases l with
    | nil => simp [getline, extract_last hl (size - 1) (by omega)]
    | cons c l => simp [getline, extract_last hl (size - 1) (by omega)]
  rw [lines, hget]
  cases l with
  | nil => simp [lines_failed]
  | cons c l =>
    -- At the end of the stream one more call leaves an empty buffer.
    have hend : lines delim size ⟨[], true, false⟩ = [[]] := by
      rw [lines]
      simp [getline, lines_failed]
    simp [hend]

theorem lines_long {l : List α} (hl : delim ∉ l) (hsize : 0 < size) (hlen : size ≤ l.length)
    (rest : List α) : lines delim size ⟨l ++ rest, false, false⟩ = [l.take (size - 1)] := by
  have hlt : size - 1 < l.length := by omega
  have hroom : size - 1 = (l.take (size - 1)).length := by
    rw [List.length_take]
    omega
  have hcut : l ++ rest =
      l.take (size - 1) ++ l[size - 1] :: (l.drop (size - 1 + 1) ++ rest) := by
    rw [← List.cons_append, ← List.drop_eq_getElem_cons hlt, ← List.append_assoc,
      List.take_append_drop]
  have hc : l[size - 1] ≠ delim := fun h => hl (h ▸ List.getElem_mem hlt)
  have hnot : delim ∉ l.take (size - 1) := fun h => hl (List.mem_of_mem_take h)
  have hextract := extract_long hnot hc (l.drop (size - 1 + 1) ++ rest)
  rw [← hroom, ← hcut] at hextract
  rw [lines]
  simp [getline, hextract, lines_failed]

theorem splitOn_line {l : List α} (hl : delim ∉ l) (rest : List α) :
    (l ++ delim :: rest).splitOn delim = l :: rest.splitOn delim := by
  rw [List.splitOn_eq_splitOnP, List.splitOn_eq_splitOnP]
  have hother : ∀ c ∈ l, (c == delim) = false := fun c hc =>
    beq_eq_false_iff_ne.2 fun h => hl (h ▸ hc)
  exact List.splitOnP_append_cons_of_forall_mem hother delim (beq_self_eq_true delim) rest

theorem splitOn_last {l : List α} (hl : delim ∉ l) : l.splitOn delim = [l] := by
  rw [List.splitOn_eq_splitOnP]
  exact List.splitOnP_eq_singleton fun c hc => beq_eq_false_iff_ne.2 fun h => hl (h ▸ hc)

/-- What the loop sees: the visible lines, and an empty one more where the last line has no
delimiter. -/
theorem lines_eq_visible (hsize : 0 < size) (content : List α) :
    lines delim size ⟨content, false, false⟩ = visible size (content.splitOn delim) ∨
    lines delim size ⟨content, false, false⟩ = visible size (content.splitOn delim) ++ [[]] := by
  induction hn : content.length using Nat.strong_induction_on generalizing content with
  | _ n ih =>
    by_cases hmem : delim ∈ content
    · obtain ⟨l, rest, rfl, hl⟩ := List.eq_append_cons_of_mem hmem
      rw [splitOn_line hl]
      by_cases hlen : l.length < size
      · have hshort : rest.length < n := by
          rw [← hn, List.length_append, List.length_cons]
          omega
        rw [lines_line hl hlen, visible, if_pos hlen]
        rcases ih _ hshort rest rfl with h | h
        · exact .inl (by rw [h])
        · exact .inr (by rw [h]; rfl)
      · rw [lines_long hl hsize (by omega), visible, if_neg hlen]
        exact .inl rfl
    · rw [splitOn_last hmem]
      by_cases hlen : content.length < size
      · rw [lines_last hmem hlen, visible, if_pos hlen, visible]
        by_cases hnil : content = []
        · exact .inl (by rw [if_pos hnil, hnil])
        · exact .inr (by rw [if_neg hnil]; rfl)
      · rw [visible, if_neg hlen]
        have h := lines_long hmem hsize (by omega) []
        rw [List.append_nil] at h
        exact .inl h

/-- Lines that fit, each ended by a delimiter. -/
theorem lines_written {ls : List (List α)} (hls : ∀ l ∈ ls, delim ∉ l ∧ l.length < size)
    (hsize : 0 < size) :
    lines delim size ⟨ls.flatMap fun l => l ++ [delim], false, false⟩ = ls ++ [[]] := by
  induction ls with
  | nil =>
    show lines delim size ⟨[], false, false⟩ = [[]]
    rw [lines_last (List.not_mem_nil) hsize, if_pos rfl]
  | cons l ls ih =>
    obtain ⟨⟨hl, hlen⟩, hrest⟩ := List.forall_mem_cons.1 hls
    rw [List.flatMap_cons, List.append_assoc, List.singleton_append, lines_line hl hlen, ih hrest]
    rfl

end Input

end Text
