import Cci.Examples.ConfigFileTool

/-!
# Configurations written to a file

A `ConfigSet` can be written as a file of one line for each name.  The tool that reads it gets the
set back, if the names and the values are such that a line can hold them; values in quotation marks,
which ex18 understands, may have blanks at their ends and quotation marks in them.

* `written`, `written_read` — for any way to write a value that the tool undoes;
* `unescaped`, `escape`, `quote` — quoted values;
* `Ex17.plain_config_read_back`, `Ex18.quoted_config_read_back` — the two tools.
-/

namespace Cci

namespace ConfigFileTool

open Text

/-- The line for a name and its value. -/
def writtenLine (text : List Char → List Char) (nv : List Char × List Char) : List Char :=
  nv.1 ++ ' ' :: text nv.2

/-- The file for a configuration. -/
def written (text : List Char → List Char) (cs : ConfigSet) : List Char :=
  cs.toList.flatMap fun nv => writtenLine text nv ++ ['\n']

/-- A name of a parameter, as far as lines go. -/
structure NameText (name : List Char) : Prop where
  nonempty : name ≠ []
  head : ∀ c ∈ name.head?, isspace c = false
  word : ∀ c ∈ name, isSeparator c = false
  clean : ∀ c ∈ name, ends c = false ∧ c ≠ '\n'

/-- A line holds the name and the value, and the tool finds the value in it. -/
structure Writable (valueText text : List Char → List Char) (nv : List Char × List Char) :
    Prop where
  name : NameText nv.1
  recovers : valueText (Text.trim isspace (text nv.2)) = nv.2
  noMacro : nv.2.head? ≠ some '='
  shows : ∃ c ∈ text nv.2, isSeparator c = false
  clean : ∀ c ∈ text nv.2, ends c = false ∧ c ≠ '\n'
  fits : (writtenLine text nv).length < configFileToolBufsize

section

variable {valueText text : List Char → List Char}

theorem Writable.notMem {nv : List Char × List Char} (h : Writable valueText text nv) :
    '\n' ∉ writtenLine text nv := by
  intro hmem
  rcases List.mem_append.1 hmem with hname | htext
  · exact (h.name.clean _ hname).2 rfl
  · rcases List.mem_cons.1 htext with hsep | htext
    · exact absurd hsep (by decide)
    · exact (h.clean _ htext).2 rfl

theorem Writable.read_eq {nv : List Char × List Char} (h : Writable valueText text nv) :
    Line.read valueText (writtenLine text nv) = .setting nv.1 nv.2 := by
  have hclean : ∀ c ∈ writtenLine text nv, ends c = false := by
    intro c hc
    rcases List.mem_append.1 hc with hname | htext
    · exact (h.name.clean c hname).1
    · rcases List.mem_cons.1 htext with rfl | htext
      · decide
      · exact (h.clean c htext).1
  have hhead : ∀ c ∈ (writtenLine text nv).head?, isspace c = false := by
    intro c hc
    refine h.name.head c ?_
    rw [writtenLine, List.head?_append_of_ne_nil _ h.name.nonempty] at hc
    exact hc
  have hshows : Shows (writtenLine text nv) (nv.1 ++ ' ' :: text nv.2) :=
    ⟨⟨[], [], (List.append_nil _).symm, List.forall_mem_nil _, fun _ h => by cases h⟩, hhead, hclean⟩
  exact Line.read_eq_setting_iff.2 ⟨text nv.2,
    ⟨h.name.nonempty, h.name.word, h.shows, ' ', rfl, hshows⟩, h.recovers.symm, h.noMacro⟩

/-- Lines that only set values define no macro. -/
theorem Line.not_stands_settings (l : List (List Char × List Char)) (n v : List Char) :
    ¬Stands (l.map fun nv => .setting nv.1 nv.2) n v := by
  induction l using List.reverseRecOn with
  | nil => exact not_latest_nil
  | append_singleton l nv ih =>
    rw [List.map_append, List.map_singleton, stands_snoc]
    simp [ih]

/-- Lines that set the values of different names make each of them hold. -/
theorem Line.holds_settings {l : List (List Char × List Char)}
    (hl : l.Pairwise fun a b => a.1 ≠ b.1) (n v : List Char) :
    Holds (l.map fun nv => .setting nv.1 nv.2) n v ↔ (n, v) ∈ l := by
  induction l using List.reverseRecOn with
  | nil => simp [Holds, not_latest_nil]
  | append_singleton l nv ih =>
    obtain ⟨hinit, -, hlast⟩ := List.pairwise_append.1 hl
    obtain ⟨m, w⟩ := nv
    rw [List.map_append, List.map_singleton, holds_snoc, ih hinit, List.mem_append,
      List.mem_singleton]
    have hres : ∀ text, Resolves (l.map fun nv => .setting nv.1 nv.2) text v ↔ v = text := by
      intro text
      simp [Resolves, not_stands_settings]
    by_cases hmn : m = n
    · subst hmn
      have hnot : (m, v) ∉ l := fun h => hlast _ h (m, w) List.mem_cons_self rfl
      simp [hres, hnot]
    · simp [hmn, Ne.symm hmn]

/-- A written configuration is read back. -/
theorem written_read (filename : String) (cs : ConfigSet)
    (h : ∀ nv ∈ cs.toList, Writable valueText text nv) :
    createConfigSetFromFile (interpretConfigLine valueText) filename (some (written text cs)) =
      some (cs, []) := by
  let ls := cs.toList.map (writtenLine text)
  have hlines : Input.lines '\n' configFileToolBufsize ⟨written text cs, false, false⟩ =
      ls ++ [[]] := by
    have hwritten : written text cs = ls.flatMap fun l => l ++ ['\n'] := by
      rw [written, List.flatMap_map]
    rw [hwritten]
    refine Input.lines_written (fun l hl => ?_) (by decide)
    obtain ⟨nv, hnv, rfl⟩ := List.mem_map.1 hl
    exact ⟨(h nv hnv).notMem, (h nv hnv).fits⟩
  have hlines_read : ls.map (Line.read valueText) = cs.toList.map fun nv => .setting nv.1 nv.2 := by
    rw [List.map_map]
    exact List.map_congr_left fun nv hnv => (h nv hnv).read_eq
  have hquiet : warningsOf valueText ls = [] := by
    refine List.filterMap_eq_nil_iff.2 fun l hl => if_neg ?_
    have hmem : Line.read valueText l.1 ∈ ls.map (Line.read valueText) :=
      List.mem_map_of_mem (List.fst_mem_of_mem_zipIdx hl)
    rw [hlines_read] at hmem
    obtain ⟨nv, -, hnv⟩ := List.mem_map.1 hmem
    rw [← hnv]
    exact fun hbad => by cases hbad
  obtain ⟨st, hread, hreads⟩ :=
    @createConfigSetFromFile_reads valueText filename (written text cs)
  rw [hlines] at hreads
  obtain ⟨hconfig, hwarned⟩ := hreads.config_blank blank_nil
  have hcs : st.configSet = cs := by
    refine Std.ExtTreeMap.ext_getElem? fun n => Option.ext fun v => ?_
    rw [hconfig, hlines_read, Line.holds_settings cs.distinct_names]
    exact Std.ExtTreeMap.mem_toList_iff_getElem?_eq_some
  rw [hread, hcs, hwarned, hquiet]

end

/-! ### Plain values -/

/-- A value that needs no quotation marks. -/
structure PlainText (v : List Char) : Prop where
  nonempty : v ≠ []
  trimmed : Trimmed isspace v
  noMacro : v.head? ≠ some '='
  clean : ∀ c ∈ v, ends c = false ∧ c ≠ '\n'

theorem PlainText.writable {n v : List Char} (hn : NameText n) (hv : PlainText v)
    (hfits : n.length + v.length + 1 < configFileToolBufsize) : Writable id id (n, v) where
  name := hn
  recovers := hv.trimmed.trim_eq
  noMacro := hv.noMacro
  shows := by
    obtain ⟨c, v, rfl⟩ := List.exists_cons_of_ne_nil hv.nonempty
    refine ⟨c, List.mem_cons_self, ?_⟩
    have hc := hv.trimmed.head c rfl
    by_contra hsep
    rw [Bool.not_eq_false] at hsep
    rw [isspace_of_isSeparator hsep] at hc
    cases hc
  clean := hv.clean
  fits := by
    rw [writtenLine, List.length_append, List.length_cons, ← Nat.add_assoc]
    exact hfits

/-- Written without quotation marks, a configuration is read back by ex17. -/
theorem Ex17.plain_config_read_back (filename : String) (cs : ConfigSet)
    (h : ∀ nv ∈ cs.toList, NameText nv.1 ∧ PlainText nv.2 ∧
      nv.1.length + nv.2.length + 1 < configFileToolBufsize) :
    createConfigSetFromFile Ex17.interpretConfigLine filename (some (written id cs)) =
      some (cs, []) :=
  ConfigFileTool.written_read filename cs fun nv hnv =>
    (h nv hnv).2.1.writable (h nv hnv).1 (h nv hnv).2.2

/-! ### Quoted values -/

/-- A string with `\"` read as `"`. -/
def unescaped : List Char → List Char
  | [] => []
  | [c] => [c]
  | c :: d :: l => if c = '\\' ∧ d = '"' then '"' :: unescaped l else c :: unescaped (d :: l)

theorem find_cons (c : Char) (l sub : List Char) :
    find (c :: l) sub = if sub.isPrefixOf (c :: l) then some 0 else (find l sub).map (· + 1) := by
  rw [find, List.tails_cons, List.findIdx?_cons]
  rfl

/-- Up to the first `\"` nothing changes. -/
theorem unescaped_eq (l : List Char) :
    unescaped l = (find l ['\\', '"']).elim l fun d => l.take d ++ '"' :: unescaped (l.drop (d + 2)) := by
  fun_induction unescaped l with
  | case1 => rfl
  | case2 c =>
    rw [find_cons]
    simp [find]
  | case3 c d l h =>
    rw [find_cons, if_pos (by simp [h.1, h.2])]
    simp
  | case4 c d l h ih =>
    rw [find_cons, if_neg (by simpa using fun hc hd => h ⟨hc.symm, hd.symm⟩), ih]
    cases find (d :: l) ['\\', '"'] <;> simp

theorem unescaped_cons {c : Char} {l : List Char} (h : ¬(c = '\\' ∧ l.head? = some '"')) :
    unescaped (c :: l) = c :: unescaped l := by
  cases l with
  | nil => rfl
  | cons d l =>
    rw [unescaped, if_neg]
    exact fun hcd => h ⟨hcd.1, congrArg some hcd.2⟩

/-- The loop leaves what is before `loc` alone. -/
theorem unescape_eq (val : List Char) (loc : ℕ) :
    unescape val loc = val.take loc ++ unescaped (val.drop loc) := by
  fun_induction unescape val loc with
  | case1 val loc d h ih =>
    have hfound : d + 2 ≤ (val.drop loc).length := find_eq_some h
    rw [List.length_drop] at hfound
    have hlen : (val.take (loc + d)).length = loc + d := by
      rw [List.length_take]
      omega
    have htake : (val.take (loc + d) ++ '"' :: val.drop (loc + d + 2)).take (loc + d) =
        val.take (loc + d) := List.take_left' hlen
    have hdrop : (val.take (loc + d) ++ '"' :: val.drop (loc + d + 2)).drop (loc + d) =
        '"' :: val.drop (loc + d + 2) := List.drop_left' hlen
    rw [ih, htake, hdrop, unescaped_eq (val.drop loc), h, Option.elim_some,
      unescaped_cons (by simp), List.drop_drop, List.take_add, List.append_assoc, Nat.add_assoc]
  | case2 val loc h =>
    rw [unescaped_eq, h, Option.elim_none]
    exact (List.take_append_drop loc val).symm

/-- `\"` for each quotation mark. -/
def escape (v : List Char) : List Char := v.flatMap fun c => if c = '"' then ['\\', '"'] else [c]

theorem escape_cons (c : Char) (v : List Char) :
    escape (c :: v) = (if c = '"' then ['\\', '"'] else [c]) ++ escape v := rfl

theorem head_escape (v : List Char) : (escape v).head? ≠ some '"' := by
  cases v with
  | nil => exact fun h => by cases h
  | cons c v =>
    rw [escape_cons]
    split
    · exact fun h => absurd (Option.some.inj h) (by decide)
    · rename_i hc
      exact fun h => hc (Option.some.inj h)

theorem unescaped_escape (v : List Char) : unescaped (escape v) = v := by
  induction v with
  | nil => rfl
  | cons c v ih =>
    rw [escape_cons]
    split
    · rename_i hc
      show '"' :: unescaped (escape v) = c :: v
      rw [ih, hc]
    · show unescaped (c :: escape v) = c :: v
      rw [unescaped_cons fun h => head_escape v h.2, ih]

theorem mem_escape {c : Char} {v : List Char} (h : c ∈ escape v) : c = '\\' ∨ c ∈ v := by
  obtain ⟨d, hd, hc⟩ := List.mem_flatMap.1 h
  split at hc
  · rename_i hquote
    rcases List.mem_cons.1 hc with hc | hc
    · exact .inl hc
    · rw [List.mem_singleton.1 hc, ← hquote]
      exact .inr hd
  · rw [List.mem_singleton.1 hc]
    exact .inr hd

/-- A value in quotation marks. -/
def quote (v : List Char) : List Char := '"' :: (escape v ++ ['"'])

theorem unquote_quote (v : List Char) : unquote (quote v) = escape v := by
  have hfirst : (quote v).findIdx? (· == '"') = some 0 := rfl
  have hlast : findLast (quote v) '"' = some ((escape v).length + 1) := by
    rw [findLast, quote, List.reverse_cons, List.reverse_append]
    simp [List.findIdx?_cons]
  have hne : 0 ≠ (escape v).length + 1 := (Nat.succ_ne_zero _).symm
  have htake : ((quote v).drop (0 + 1)).take ((escape v).length + 1 - 0 - 1) = escape v :=
    List.take_left
  simp only [unquote, hfirst, hlast, if_pos hne, htake]

/-- A value that a line can hold in quotation marks. -/
structure QuotedText (v : List Char) : Prop where
  noMacro : v.head? ≠ some '='
  clean : ∀ c ∈ v, ends c = false ∧ c ≠ '\n'

theorem QuotedText.writable {n v : List Char} (hn : NameText n) (hv : QuotedText v)
    (hfits : (writtenLine quote (n, v)).length < configFileToolBufsize) :
    Writable (fun val => unescape (unquote val) 0) quote (n, v) where
  name := hn
  recovers := by
    have htrimmed : Trimmed isspace (quote v) := by
      refine ⟨fun c hc => ?_, fun c hc => ?_⟩
      · cases hc
        decide
      · rw [quote, ← List.cons_append, List.getLast?_concat] at hc
        cases hc
        decide
    show unescape (unquote (Text.trim isspace (quote v))) 0 = v
    rw [htrimmed.trim_eq, unquote_quote, unescape_eq, List.take_zero, List.nil_append,
      List.drop_zero, unescaped_escape]
  noMacro := hv.noMacro
  shows := ⟨'"', List.mem_cons_self, rfl⟩
  clean := by
    intro c hc
    rcases List.mem_cons.1 hc with rfl | hc
    · decide
    rcases List.mem_append.1 hc with hc | hc
    · rcases mem_escape hc with rfl | hc
      · decide
      · exact hv.clean c hc
    · rw [List.mem_singleton.1 hc]
      decide
  fits := hfits

/-- **Round trip.**  A configuration written with its values in quotation marks is read back by ex18,
whatever blanks, quotation marks and backslashes are in the values. -/
theorem Ex18.quoted_config_read_back (filename : String) (cs : ConfigSet)
    (h : ∀ nv ∈ cs.toList, NameText nv.1 ∧ QuotedText nv.2 ∧
      (writtenLine quote nv).length < configFileToolBufsize) :
    createConfigSetFromFile Ex18.interpretConfigLine filename (some (written quote cs)) =
      some (cs, []) :=
  ConfigFileTool.written_read filename cs fun nv hnv =>
    (h nv hnv).2.1.writable (h nv hnv).1 (h nv hnv).2.2

/-- A configuration with a blank and quotation marks in a value. -/
def greeting : ConfigSet :=
  ({} : ConfigSet).insert ['t', 'o', 'p', '.', 's'] [' ', '"', 'h', 'i', '"']

theorem Ex18.quoted_config_read_back_greeting :
    createConfigSetFromFile Ex18.interpretConfigLine "Configuration_File.txt"
      (some (written quote greeting)) = some (greeting, []) := by
  refine Ex18.quoted_config_read_back "Configuration_File.txt" greeting fun nv hnv => ?_
  obtain ⟨n, v⟩ := nv
  have hget := Std.ExtTreeMap.mem_toList_iff_getElem?_eq_some.1 hnv
  rw [greeting, Std.ExtTreeMap.getElem?_insert] at hget
  split at hget
  · rename_i hname
    obtain rfl := Std.LawfulEqCmp.eq_of_compare hname
    obtain rfl := Option.some.inj hget
    refine ⟨⟨by simp, by simp [isspace], by simp [isSeparator], ?_⟩, ⟨by simp, ?_⟩, by decide⟩ <;>
      simp [ends, nul]
  · simp at hget

end ConfigFileTool

end Cci
