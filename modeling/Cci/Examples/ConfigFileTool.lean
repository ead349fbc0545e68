import Cci.Lib.Text

/-!
# Configuration files

`ex17_cci_configFile_Tool` and `ex18_cci_configFile_Tool` read a file of lines, each a parameter name
and the JSON text of its preset, with comments from `#` on and with macros: a line `NAME =text` makes
`NAME` stand for `text` where a later line has it as its value.  The two differ in the text of a
value, which in ex18 may be quoted.

* `parse`, `interpretConfigLine` — one line;
* `ConfigSet`, `Reading`, `createConfigSetFromFile` — a whole file;
* `Spells` — the lines that are read as a name and a text; `interpretConfigLine_spec`;
* `Line`, `Holds` — what a file says: the last line for a name counts, and macros stand for what they
  were last defined as before; `createConfigSetFromFile_spec`.

A `Char` stands for a byte.
-/

namespace Cci

namespace ConfigFileTool

open Text

/-! ### Strings -/

/-- `std::isspace` in the C locale. -/
def isspace (ch : Char) : Bool := ch == ' ' || (9 ≤ ch.toNat && ch.toNat ≤ 13)

/-- `ltrim`. -/
def ltrim (s : List Char) : List Char := s.dropWhile isspace

/-- `trim`: `rtrim` of `ltrim`. -/
def trim : List Char → List Char := Text.trim isspace

/-- The terminator of a C string. -/
def nul : Char := Char.ofNat 0

/-- The string a `char` buffer holds. -/
def cString (buf : List Char) : List Char := buf.takeWhile (· != nul)

/-- `find` of a string. -/
def find (s sub : List Char) : Option ℕ := s.tails.findIdx? sub.isPrefixOf

theorem find_eq_some {s sub : List Char} {d : ℕ} (h : find s sub = some d) :
    d + sub.length ≤ s.length := by
  obtain ⟨hd, hpre, -⟩ := List.findIdx?_eq_some_iff_getElem.1 h
  rw [List.length_tails] at hd
  rw [List.getElem_tails, List.isPrefixOf_iff_prefix] at hpre
  have hlen := hpre.length_le
  rw [List.length_drop] at hlen
  omega

theorem find_prefix {s sub : List Char} (h : sub <+: s) : find s sub = some 0 := by
  refine List.findIdx?_eq_some_iff_getElem.2 ⟨by simp, ?_, fun j hj => absurd hj (Nat.not_lt_zero j)⟩
  rw [List.getElem_tails, List.isPrefixOf_iff_prefix]
  exact h

/-- The part of a string before the first `#`, or all of it. -/
def eraseComment (s : List Char) : List Char :=
  match s.findIdx? (· == '#') with
  | some idx => s.take idx
  | none => s

/-! ### Lines -/

/-- `gc_config_parse_result`. -/
inductive GcConfigParseResult where
  | ignore | param
deriving DecidableEq, Repr

/-- The separators: a space and a tab. -/
def isSeparator (c : Char) : Bool := c == ' ' || c == '\t'

/-- The loop of `parse` with `find_first_of(" \t")`, and the push of the last token. -/
def tokens (token : List Char) (tokenlist : List (List Char)) : List (List Char) :=
  match _h : token.findIdx? isSeparator with
  | some idx =>
      tokens (token.drop (idx + 1)) (if 0 < idx then tokenlist ++ [token.take idx] else tokenlist)
  | none => if 0 < token.length then tokenlist ++ [token] else tokenlist
termination_by token.length
decreasing_by
  have hidx := (List.findIdx?_eq_some_iff_getElem.1 _h).1
  rw [List.length_drop]
  omega

/-- `parse`. -/
def parse (token : List Char) : List (List Char) × GcConfigParseResult :=
  if token = [] then ([], .ignore)
  else
    let tokenlist := tokens (eraseComment token) []
    if tokenlist = [] then (tokenlist, .ignore)
    else if tokenlist.length = 1 then (tokenlist, .ignore)
    else (tokenlist, .param)

/-- `interpret_config_line`, with what a tool makes of the text of a value; `none` where `substr`
would throw or a token be read past the end of the list. -/
def interpretConfigLine (valueText : List Char → List Char) (line : List Char) :
    Option (List Char × List Char) :=
  let lstr := ltrim (eraseComment (cString line))
  if lstr = [] then some ([], [])
  else
    let p := parse lstr
    match p.2 with
    | .param => do
        let parname ← p.1[0]?
        let pos ← find lstr parname
        let val := lstr.drop pos
        let val := val.drop ((val.findIdx? isSeparator).elim 0 (· + 1))
        some (parname, valueText (trim val))
    | .ignore => some ([], "parsing failed".toList)

/-- `find_last_of` of a character. -/
def findLast (s : List Char) (c : Char) : Option ℕ :=
  (s.reverse.findIdx? (· == c)).map fun i => s.length - 1 - i

/-- What is between the first and the last quotation mark, where these are two. -/
def unquote (val : List Char) : List Char :=
  match val.findIdx? (· == '"'), findLast val '"' with
  | some first, some last =>
      if first ≠ last then (val.drop (first + 1)).take (last - first - 1) else val
  | _, _ => val

/-- The loop that puts `"` for each `\"` it finds from `loc` on. -/
def unescape (val : List Char) (loc : ℕ) : List Char :=
  match _h : find (val.drop loc) ['\\', '"'] with
  | some d => unescape (val.take (loc + d) ++ '"' :: val.drop (loc + d + 2)) (loc + d)
  | none => val
termination_by val.length
decreasing_by
  have hfound := find_eq_some _h
  simp only [List.length_drop, List.length_cons, List.length_nil] at hfound
  simp only [List.length_append, List.length_take, List.length_cons, List.length_drop]
  omega

/-- `interpret_config_line` of ex17. -/
def Ex17.interpretConfigLine : List Char → Option (List Char × List Char) :=
  ConfigFileTool.interpretConfigLine id

/-- `interpret_config_line` of ex18. -/
def Ex18.interpretConfigLine : List Char → Option (List Char × List Char) :=
  ConfigFileTool.interpretConfigLine fun val => unescape (unquote val) 0

/-! ### What a line is read as -/

/-- The characters that end what counts of a line. -/
def ends (c : Char) : Bool := c == '#' || c == nul

/-- `line` is `body` with blanks before it and, after it, nothing or what does not count. -/
structure Shows (line body : List Char) : Prop where
  split : ∃ indent tail, line = indent ++ (body ++ tail) ∧ (∀ c ∈ indent, isspace c) ∧
    ∀ c ∈ tail.head?, ends c
  head : ∀ c ∈ body.head?, isspace c = false
  clean : ∀ c ∈ body, ends c = false

/-- A line without a word. -/
def Blank (line : List Char) : Prop := Shows line []

/-- A line with a name, a separator and the text of a value that is not all separators. -/
def Spells (line name text : List Char) : Prop :=
  name ≠ [] ∧ (∀ c ∈ name, isSeparator c = false) ∧ (∃ c ∈ text, isSeparator c = false) ∧
    ∃ s, isSeparator s ∧ Shows line (name ++ s :: text)

theorem isspace_of_isSeparator {c : Char} (h : isSeparator c) : isspace c := by
  simp only [isSeparator, Bool.or_eq_true, beq_iff_eq] at h
  rcases h with rfl | rfl <;> decide

theorem ends_of_isspace {c : Char} (h : isspace c) : ends c = false := by
  by_contra hend
  simp only [ends, Bool.not_eq_false, Bool.or_eq_true, beq_iff_eq] at hend
  rcases hend with rfl | rfl <;> exact absurd h (by decide)

theorem eraseComment_eq (s : List Char) : eraseComment s = s.takeWhile (· != '#') := by
  rcases split_first (· == '#') s with hall | ⟨w, c, l, hw, hc, rfl⟩
  · rw [eraseComment, List.findIdx?_eq_none_iff.2 hall]
    refine (List.takeWhile_eq_self_iff.2 fun c hc => ?_).symm
    simpa using hall c hc
  · rw [eraseComment, findIdx?_word_cons hw hc]
    show (w ++ c :: l).take w.length = _
    rw [List.take_left, List.takeWhile_append_of_pos fun d hd => by simpa using hw d hd,
      List.takeWhile_cons_of_neg (by simpa using hc), List.append_nil]

/-- What counts of a line, as `interpret_config_line` finds it. -/
theorem Shows.ltrim_eq {line body : List Char} (h : Shows line body) :
    ltrim (eraseComment (cString line)) = body := by
  obtain ⟨indent, tail, rfl, hindent, htail⟩ := h.split
  have hfront : ∀ c ∈ indent ++ body, ends c = false := by
    intro c hc
    rcases List.mem_append.1 hc with hc | hc
    · exact ends_of_isspace (hindent c hc)
    · exact h.clean c hc
  have hcut : (cString (indent ++ (body ++ tail))).takeWhile (· != '#') = indent ++ body := by
    rw [cString, List.takeWhile_takeWhile, ← List.append_assoc, List.takeWhile_append_of_pos]
    · cases tail with
      | nil => exact List.append_nil _
      | cons c tail =>
        have hc : ends c := htail c rfl
        rw [List.takeWhile_cons_of_neg (by simpa [ends, imp_iff_not_or] using hc), List.append_nil]
    · intro c hc
      simpa [ends] using hfront c hc
  rw [eraseComment_eq, hcut, ltrim, List.dropWhile_append_of_pos hindent]
  exact dropWhile_head h.head

theorem exists_shows (line : List Char) : ∃ body, Shows line body := by
  obtain ⟨front, tail, rfl, hfront, htail⟩ : ∃ front tail, line = front ++ tail ∧
      (∀ c ∈ front, ends c = false) ∧ ∀ c ∈ tail.head?, ends c := by
    rcases split_first ends line with hall | ⟨w, c, l, hw, hc, rfl⟩
    · exact ⟨line, [], (List.append_nil line).symm, hall, fun c hc => by cases hc⟩
    · exact ⟨w, c :: l, rfl, hw, fun d hd => by cases hd; exact hc⟩
  refine ⟨front.dropWhile isspace, ⟨front.takeWhile isspace, tail, ?_, ?_, htail⟩,
    head_dropWhile front, fun c hc => hfront c ((List.dropWhile_sublist _).subset hc)⟩
  · rw [← List.append_assoc, List.takeWhile_append_dropWhile]
  · exact fun c hc => List.mem_takeWhile_imp hc

theorem tokens_eq (token : List Char) (tokenlist : List (List Char)) :
    tokens token tokenlist = tokenlist ++ words isSeparator token := by
  fun_induction tokens token tokenlist with
  | case1 token tokenlist idx h ih =>
    simp only [dite_eq_ite] at ih
    rw [ih, words_of_findIdx? h]
    split <;> simp
  | case2 token tokenlist h hlen => rw [words_of_findIdx?_none h, if_pos hlen]
  | case3 token tokenlist h hlen => rw [words_of_findIdx?_none h, if_neg hlen, List.append_nil]

/-- `parse` on what counts of a line. -/
theorem parse_eq {token : List Char} (hne : token ≠ []) (hclean : ∀ c ∈ token, ends c = false) :
    parse token = (words isSeparator token,
      if (words isSeparator token).length ≤ 1 then .ignore else .param) := by
  have herase : eraseComment token = token := by
    rw [eraseComment_eq]
    refine List.takeWhile_eq_self_iff.2 fun c hc => ?_
    have h := hclean c hc
    simp only [ends, Bool.or_eq_false_iff] at h
    simpa using h.1
  rw [parse, if_neg hne, herase, tokens_eq, List.nil_append]
  rcases hwords : words isSeparator token with _ | ⟨w, _ | ⟨w', ws⟩⟩ <;> simp

section

variable (valueText : List Char → List Char)

theorem Spells.interpretConfigLine_eq {line name text : List Char} (h : Spells line name text) :
    interpretConfigLine valueText line = some (name, valueText (trim text)) := by
  obtain ⟨hname, hword, ⟨c, hc, hcsep⟩, s, hs, hshows⟩ := h
  have hwords : words isSeparator (name ++ s :: text) = name :: words isSeparator text :=
    words_word_cons hword hname hs text
  have hmore : 1 < (name :: words isSeparator text).length := by
    have hne : words isSeparator text ≠ [] := by
      intro hnil
      rw [(words_eq_nil_iff text).1 hnil c hc] at hcsep
      cases hcsep
    have hpos := List.length_pos_iff.2 hne
    rw [List.length_cons]
    omega
  have hne : name ++ s :: text ≠ [] := List.append_ne_nil_of_left_ne_nil hname _
  have hdrop : (name ++ s :: text).drop (name.length + 1) = text := by
    rw [List.drop_append]
    simp
  simp only [interpretConfigLine, hshows.ltrim_eq, if_neg hne, parse_eq hne hshows.clean, hwords,
    if_neg (Nat.not_le.2 hmore), List.getElem?_cons_zero, Option.bind_eq_bind, Option.bind_some,
    find_prefix (List.prefix_append name _), List.drop_zero, findIdx?_word_cons hword hs,
    Option.elim_some, hdrop]

theorem Blank.interpretConfigLine_eq {line : List Char} (h : Blank line) :
    interpretConfigLine valueText line = some ([], []) := by
  simp only [interpretConfigLine, h.ltrim_eq, if_pos]

/-- A line is blank, spells out a name and a text, or cannot be parsed. -/
theorem interpretConfigLine_cases (line : List Char) :
    Blank line ∨ (∃ name text, Spells line name text) ∨
      interpretConfigLine valueText line = some ([], "parsing failed".toList) := by
  obtain ⟨body, hbody⟩ := exists_shows line
  by_cases hne : body = []
  · rw [hne] at hbody
    exact .inl hbody
  have hparse := parse_eq hne hbody.clean
  by_cases hlen : (words isSeparator body).length ≤ 1
  · refine .inr (.inr ?_)
    rw [if_pos hlen] at hparse
    simp only [interpretConfigLine, hbody.ltrim_eq, if_neg hne, hparse]
  · refine .inr (.inl ?_)
    rcases split_first isSeparator body with hall | ⟨w, s, l, hw, hs, rfl⟩
    · rw [words_word hall hne] at hlen
      exact absurd le_rfl hlen
    -- The first character of the body is no blank, so there is a word before the first separator.
    have hword : w ≠ [] := by
      rintro rfl
      have hhead := hbody.head s rfl
      rw [isspace_of_isSeparator hs] at hhead
      cases hhead
    refine ⟨w, l, hword, hw, ?_, s, hs, hbody⟩
    by_contra hnone
    have hall : ∀ c ∈ l, isSeparator c := by
      intro c hc
      by_contra hsep
      exact hnone ⟨c, hc, by simpa using hsep⟩
    rw [words_word_cons hw hword hs, (words_eq_nil_iff l).2 hall] at hlen
    exact hlen le_rfl

/-- **The grammar of a line.**  Interpreting a line gives a name and a value exactly where the line
spells out the name and a text, and the value is that of the trimmed text; it gives two empty strings
for a blank line, and `parsing failed` for every other one. -/
theorem interpretConfigLine_spec (line : List Char) :
    (∀ name val, name ≠ [] → (interpretConfigLine valueText line = some (name, val) ↔
      ∃ text, Spells line name text ∧ val = valueText (trim text))) ∧
    (interpretConfigLine valueText line = some ([], []) ↔ Blank line) ∧
    (interpretConfigLine valueText line = some ([], "parsing failed".toList) ↔
      ¬Blank line ∧ ∀ name text, ¬Spells line name text) := by
  have hspells : ∀ {name text}, Spells line name text →
      interpretConfigLine valueText line = some (name, valueText (trim text)) :=
    fun h => h.interpretConfigLine_eq valueText
  have hblank : Blank line → interpretConfigLine valueText line = some ([], []) :=
    fun h => h.interpretConfigLine_eq valueText
  have hfailed : ("parsing failed".toList : List Char) ≠ [] := by decide
  refine ⟨fun name val hname => ⟨fun h => ?_, ?_⟩, ⟨fun h => ?_, hblank⟩, ⟨fun h => ⟨?_, ?_⟩, ?_⟩⟩
  · rcases interpretConfigLine_cases valueText line with hb | ⟨name', text, hs⟩ | hf
    · cases (hblank hb).symm.trans h
      exact absurd rfl hname
    · cases (hspells hs).symm.trans h
      exact ⟨text, hs, rfl⟩
    · cases hf.symm.trans h
      exact absurd rfl hname
  · rintro ⟨text, hs, rfl⟩
    exact hspells hs
  · rcases interpretConfigLine_cases valueText line with hb | ⟨name', text, hs⟩ | hf
    · exact hb
    · exact absurd (congrArg Prod.fst (Option.some.inj ((hspells hs).symm.trans h))) hs.1
    · exact absurd (congrArg Prod.snd (Option.some.inj (hf.symm.trans h))) hfailed
  · intro hb
    exact hfailed (congrArg Prod.snd (Option.some.inj (h.symm.trans (hblank hb))))
  · intro name text hs
    exact hs.1 (congrArg Prod.fst (Option.some.inj ((hspells hs).symm.trans h)))
  · rintro ⟨hb, hs⟩
    rcases interpretConfigLine_cases valueText line with hb' | ⟨name', text, hs'⟩ | hf
    · exact absurd hb' hb
    · exact absurd hs' (hs name' text)
    · exact hf

end

/-! ### Files -/

/-- `ConfigSet`, ordered by the bytes of the names. -/
abbrev ConfigSet : Type := Std.ExtTreeMap (List Char) (List Char)

namespace ConfigSet

/-- `add`; whether the name is new, and the set. -/
def add (s : ConfigSet) (paramName value : List Char) : Bool × ConfigSet :=
  if paramName ∈ s then (false, (s.erase paramName).insert paramName value)
  else (true, s.insert paramName value)

/-- `has`. -/
def has (s : ConfigSet) (paramName : List Char) : Bool := decide (paramName ∈ s)

/-- `get`, which gives an empty string for a name that is not there. -/
def get (s : ConfigSet) (paramName : List Char) : List Char := s[paramName]?.getD []

theorem distinct_names (s : ConfigSet) : s.toList.Pairwise fun a b => a.1 ≠ b.1 := by
  refine s.distinct_keys_toList.imp fun hab heq => hab ?_
  rw [heq]
  exact Std.ReflCmp.compare_self

end ConfigSet

/-- The characters of the name of a macro. -/
def isMacroChar (c : Char) : Bool := ('A' ≤ c && c ≤ 'Z') || c == '_'

/-- The warning about a line. -/
def parsingFailed (ln : ℕ) (line : List Char) : String :=
  "In config file line " ++ toString ln ++ ": Parsing failed [" ++ String.ofList (cString line) ++
    "]\n"

/-- The local variables of `create_config_set_from_file`, and the warnings so far. -/
structure Reading where
  ln : ℕ := 0
  macroSet : ConfigSet := ∅
  configSet : ConfigSet := ∅
  warnings : List String := []

section

variable (interpret : List Char → Option (List Char × List Char))

/-- The body of the loop, after `getline`; `ln` is an `unsigned`. -/
def Reading.next (line : List Char) (st : Reading) : Option Reading := do
  let st := { st with ln := (st.ln + 1) % 2 ^ 32 }
  let data ← interpret line
  if 0 < data.1.length then
    if data.2.head? = some '=' then
      if data.1.all isMacroChar then
        some { st with macroSet := (st.macroSet.add data.1 (trim (data.2.drop 1))).2 }
      else some { st with warnings := st.warnings ++ [parsingFailed st.ln line] }
    else if st.macroSet.has data.2 then
      some { st with configSet := (st.configSet.add data.1 (st.macroSet.get data.2)).2 }
    else some { st with configSet := (st.configSet.add data.1 data.2).2 }
  else if 0 < data.2.length then
    some { st with warnings := st.warnings ++ [parsingFailed st.ln line] }
  else some st

/-- `CONFIG_FILE_TOOL_BUFSIZE`. -/
def configFileToolBufsize : ℕ := 1024

/-- The loop `while (is)`. -/
def readLoop (is : Input Char) (st : Reading) : Option Reading :=
  if is.fail then some st
  else do
    let st ← st.next interpret (is.getline '\n' configFileToolBufsize).1
    readLoop (is.getline '\n' configFileToolBufsize).2 st
termination_by is.left
decreasing_by
  rename_i h
  exact Input.left_getline (by simpa using h)

/-- `create_config_set_from_file`: the set, and the warnings.  A file is its name and, where it can
be opened, its contents. -/
def createConfigSetFromFile (filename : String) (file : Option (List Char)) :
    Option (ConfigSet × List String) :=
  match file with
  | none => some (∅, ["Cannot open config file '" ++ filename ++ "'\n"])
  | some content =>
      (readLoop interpret ⟨content, false, false⟩ {}).map fun st => (st.configSet, st.warnings)

end

/-! ### What a file says -/

/-- What a line says: what a macro stands for, the value of a name, nothing that can be parsed, or
nothing. -/
inductive Line where
  | definition (name value : List Char)
  | setting (name value : List Char)
  | bad
  | blank
deriving DecidableEq, Repr

namespace Line

/-- A name and a text beginning with `=` define a macro if the name is one of a macro. -/
def ofData (data : List Char × List Char) : Line :=
  if data.1 = [] then if data.2 = [] then .blank else .bad
  else if data.2.head? = some '=' then
    if data.1.all isMacroChar then .definition data.1 (trim (data.2.drop 1)) else .bad
  else .setting data.1 data.2

/-- What a tool reads a line as. -/
def read (valueText : List Char → List Char) (line : List Char) : Line :=
  (interpretConfigLine valueText line).elim .bad ofData

/-- The last line before that defines the macro makes it stand for the value. -/
def Stands (ls : List Line) (name value : List Char) : Prop :=
  Latest (fun _ l => l = .definition name value) (fun l => ∃ v, l = .definition name v) ls

/-- A text has the value of the macro it is, if it is one, and is its own value otherwise. -/
def Resolves (ls : List Line) (text value : List Char) : Prop :=
  Stands ls text value ∨ value = text ∧ ∀ v, ¬Stands ls text v

/-- The last line for the name gives it the value. -/
def Holds (ls : List Line) (name value : List Char) : Prop :=
  Latest (fun before l => ∃ text, l = .setting name text ∧ Resolves before text value)
    (fun l => ∃ text, l = .setting name text) ls

end Line

/-- The warnings about the lines of a file. -/
def warningsOf (valueText : List Char → List Char) (raw : List (List Char)) : List String :=
  raw.zipIdx.filterMap fun l =>
    if Line.read valueText l.1 = .bad then some (parsingFailed ((l.2 + 1) % 2 ^ 32) l.1) else none

section

variable {valueText : List Char → List Char}

theorem Spells.read_eq {line name text : List Char} (h : Spells line name text) :
    Line.read valueText line =
      if (valueText (trim text)).head? = some '=' then
        if name.all isMacroChar then .definition name (trim ((valueText (trim text)).drop 1)) else .bad
      else .setting name (valueText (trim text)) := by
  rw [Line.read, h.interpretConfigLine_eq, Option.elim_some, Line.ofData, if_neg h.1]

theorem Blank.read_eq {line : List Char} (h : Blank line) : Line.read valueText line = .blank := by
  rw [Line.read, h.interpretConfigLine_eq, Option.elim_some, Line.ofData, if_pos rfl, if_pos rfl]

/-- A line without a name and a text says nothing about a name. -/
theorem Line.read_cases (line : List Char) :
    (∃ name text, Spells line name text) ∨
      Line.read valueText line = .blank ∨ Line.read valueText line = .bad := by
  rcases interpretConfigLine_cases valueText line with hb | hs | hf
  · exact .inr (.inl hb.read_eq)
  · exact .inl hs
  · refine .inr (.inr ?_)
    rw [Line.read, hf, Option.elim_some, Line.ofData, if_pos rfl, if_neg (by decide)]

theorem Line.read_eq_setting_iff {line name value : List Char} :
    Line.read valueText line = .setting name value ↔
      ∃ text, Spells line name text ∧ value = valueText (trim text) ∧ value.head? ≠ some '=' := by
  constructor
  · intro h
    rcases Line.read_cases line with ⟨name', text, hs⟩ | hread | hread
    · rw [hs.read_eq] at h
      split at h
      · split at h <;> cases h
      · rename_i hdef
        cases h
        exact ⟨text, hs, rfl, hdef⟩
    · cases hread.symm.trans h
    · cases hread.symm.trans h
  · rintro ⟨text, hs, rfl, hdef⟩
    rw [hs.read_eq, if_neg hdef]

theorem ConfigSet.add_eq (s : ConfigSet) (n v : List Char) : (s.add n v).2 = s.insert n v := by
  rw [ConfigSet.add]
  split
  · refine Std.ExtTreeMap.ext_getElem? fun k => ?_
    by_cases hk : n = k <;> simp [Std.ExtTreeMap.getElem?_insert, Std.ExtTreeMap.getElem?_erase, hk]
  · rfl

/-- What a pass of the loop makes of what the line says. -/
def Reading.apply (line : List Char) (st : Reading) : Line → Reading
  | .definition n v =>
      { st with ln := (st.ln + 1) % 2 ^ 32, macroSet := st.macroSet.insert n v }
  | .setting n text =>
      { st with ln := (st.ln + 1) % 2 ^ 32,
                configSet := st.configSet.insert n (st.macroSet[text]?.getD text) }
  | .bad =>
      { st with ln := (st.ln + 1) % 2 ^ 32,
                warnings := st.warnings ++ [parsingFailed ((st.ln + 1) % 2 ^ 32) line] }
  | .blank => { st with ln := (st.ln + 1) % 2 ^ 32 }

theorem Reading.next_eq (line : List Char) (st : Reading) :
    st.next (interpretConfigLine valueText) line = some (st.apply line (Line.read valueText line)) := by
  obtain ⟨data, hdata⟩ : ∃ data, interpretConfigLine valueText line = some data := by
    rcases interpretConfigLine_cases valueText line with hb | ⟨name, text, hs⟩ | hf
    · exact ⟨_, hb.interpretConfigLine_eq valueText⟩
    · exact ⟨_, hs.interpretConfigLine_eq valueText⟩
    · exact ⟨_, hf⟩
  obtain ⟨first, second⟩ := data
  have hread : Line.read valueText line = Line.ofData (first, second) := by
    rw [Line.read, hdata, Option.elim_some]
  rw [hread]
  simp only [Reading.next, hdata, Option.bind_eq_bind, Option.bind_some, ConfigSet.add_eq,
    Line.ofData, List.length_pos_iff]
  by_cases hfirst : first = []
  · by_cases hsecond : second = []
    · simp [hfirst, hsecond, Reading.apply]
    · simp [hfirst, hsecond, Reading.apply]
  · by_cases hdef : second.head? = some '='
    · by_cases hcaps : first.all isMacroChar
      · simp only [hfirst, hdef, hcaps, ne_eq, not_false_eq_true, if_true, if_false, Reading.apply]
      · simp [hfirst, hdef, hcaps, Reading.apply]
    · simp only [hfirst, hdef, ne_eq, not_false_eq_true, if_true, if_false, Reading.apply]
      by_cases hmac : second ∈ st.macroSet
      · simp [ConfigSet.has, ConfigSet.get, hmac]
      · simp [ConfigSet.has, hmac]

/-- The loop is a fold over what it sees of the file. -/
theorem readLoop_eq (is : Input Char) (st : Reading) :
    readLoop (interpretConfigLine valueText) is st =
      some ((is.lines '\n' configFileToolBufsize).foldl
        (fun st line => st.apply line (Line.read valueText line)) st) := by
  fun_induction readLoop (interpretConfigLine valueText) is st with
  | case1 is st h => rw [Input.lines, if_pos h, List.foldl_nil]
  | case2 is st h ih =>
    rw [Input.lines, if_neg h, List.foldl_cons, Reading.next_eq, Option.bind_eq_bind,
      Option.bind_some]
    exact ih _

/-! ### Reading a file -/

/-- The state of the loop holds what the lines so far say. -/
structure Reads (valueText : List Char → List Char) (raw : List (List Char)) (st : Reading) :
    Prop where
  ln : st.ln = raw.length % 2 ^ 32
  macros : ∀ n v : List Char, st.macroSet[n]? = some v ↔ Line.Stands (raw.map (Line.read valueText)) n v
  config : ∀ n v : List Char, st.configSet[n]? = some v ↔ Line.Holds (raw.map (Line.read valueText)) n v
  warned : st.warnings = warningsOf valueText raw

theorem warningsOf_snoc (raw : List (List Char)) (line : List Char) :
    warningsOf valueText (raw ++ [line]) = warningsOf valueText raw ++
      if Line.read valueText line = .bad then [parsingFailed ((raw.length + 1) % 2 ^ 32) line]
      else [] := by
  rw [warningsOf, List.zipIdx_append, List.filterMap_append]
  split <;> simp [*, warningsOf]

/-- A macro stands for what the last line said it does. -/
theorem Line.stands_snoc (ls : List Line) (l : Line) (n v : List Char) :
    Stands (ls ++ [l]) n v ↔
      l = .definition n v ∨ (∀ v', l ≠ .definition n v') ∧ Stands ls n v := by
  rw [Stands, latest_snoc, not_exists]
  rfl

theorem Line.holds_snoc (ls : List Line) (l : Line) (n v : List Char) :
    Holds (ls ++ [l]) n v ↔
      (∃ text, l = .setting n text ∧ Resolves ls text v) ∨
        (∀ text, l ≠ .setting n text) ∧ Holds ls n v := by
  rw [Holds, latest_snoc, not_exists]
  rfl

theorem Reads.resolves {raw : List (List Char)} {st : Reading} (h : Reads valueText raw st)
    (text v : List Char) :
    st.macroSet[text]?.getD text = v ↔ Line.Resolves (raw.map (Line.read valueText)) text v := by
  simp only [Line.Resolves, ← h.macros]
  cases st.macroSet[text]? with
  | none => simp [eq_comm]
  | some w => simp

theorem Reads.apply {raw : List (List Char)} {st : Reading} (h : Reads valueText raw st)
    (line : List Char) :
    Reads valueText (raw ++ [line]) (st.apply line (Line.read valueText line)) := by
  have hln : (st.ln + 1) % 2 ^ 32 = (raw ++ [line]).length % 2 ^ 32 := by
    rw [h.ln, List.length_append, List.length_singleton, Nat.mod_add_mod]
  refine ⟨?_, fun n v => ?_, fun n v => ?_, ?_⟩
  · cases Line.read valueText line <;> exact hln
  · rw [List.map_append, List.map_singleton, Line.stands_snoc, ← h.macros]
    cases Line.read valueText line with
    | definition m w =>
      by_cases hmn : m = n <;> simp [Reading.apply, Std.ExtTreeMap.getElem?_insert, hmn]
    | setting m text => simp [Reading.apply]
    | bad => simp [Reading.apply]
    | blank => simp [Reading.apply]
  · rw [List.map_append, List.map_singleton, Line.holds_snoc, ← h.config]
    cases Line.read valueText line with
    | definition m w => simp [Reading.apply]
    | setting m text =>
      by_cases hmn : m = n
      · simp [Reading.apply, hmn, h.resolves text v]
      · simp [Reading.apply, Std.ExtTreeMap.getElem?_insert, hmn]
    | bad => simp [Reading.apply]
    | blank => simp [Reading.apply]
  · rw [warningsOf_snoc, ← h.warned]
    cases Line.read valueText line with
    | definition m w => simp [Reading.apply]
    | setting m text => simp [Reading.apply]
    | bad => simp [Reading.apply, h.ln]
    | blank => simp [Reading.apply]

theorem Reads.fold {raw : List (List Char)} {st : Reading} (h : Reads valueText raw st)
    (ls : List (List Char)) :
    Reads valueText (raw ++ ls)
      (ls.foldl (fun st line => st.apply line (Line.read valueText line)) st) := by
  induction ls generalizing raw st with
  | nil =>
    rw [List.append_nil]
    exact h
  | cons line ls ih =>
    have hstep := ih (h.apply line)
    rw [List.append_assoc] at hstep
    exact hstep

theorem reads_nil : Reads valueText [] {} where
  ln := rfl
  macros n v := by
    show none = some v ↔ _
    simp [Line.Stands, not_latest_nil]
  config n v := by
    show none = some v ↔ _
    simp [Line.Holds, not_latest_nil]
  warned := rfl

/-- A blank line at the end says nothing. -/
theorem Reads.config_blank {raw : List (List Char)} {line : List Char} {st : Reading}
    (h : Reads valueText (raw ++ [line]) st) (hline : Blank line) :
    (∀ n v : List Char, st.configSet[n]? = some v ↔
      Line.Holds (raw.map (Line.read valueText)) n v) ∧ st.warnings = warningsOf valueText raw := by
  constructor
  · intro n v
    rw [h.config, List.map_append, List.map_singleton, hline.read_eq, Line.holds_snoc]
    simp
  · rw [h.warned, warningsOf_snoc, hline.read_eq, if_neg (by simp), List.append_nil]

theorem blank_nil : Blank [] where
  split := ⟨[], [], rfl, List.forall_mem_nil _, fun _ h => by cases h⟩
  head _ h := by cases h
  clean := List.forall_mem_nil _

/-- What comes of a file is what the lines say that the loop sees. -/
theorem createConfigSetFromFile_reads (filename : String) (content : List Char) :
    ∃ st : Reading, createConfigSetFromFile (interpretConfigLine valueText) filename (some content) =
        some (st.configSet, st.warnings) ∧
      Reads valueText (Input.lines '\n' configFileToolBufsize ⟨content, false, false⟩) st := by
  refine ⟨(Input.lines '\n' configFileToolBufsize ⟨content, false, false⟩).foldl
    (fun st line => st.apply line (Line.read valueText line)) {}, ?_, reads_nil.fold _⟩
  rw [createConfigSetFromFile, readLoop_eq, Option.map_some]

/-- **What a file configures.**  Of a file that can be opened, the tool sees the lines up to the first
one of 1024 bytes or more, and 1023 bytes of that.  The set it returns has for a name the value that
the last of these lines with that name says, where a macro stands for what it was last defined as
before that line; the warnings name the lines that cannot be parsed. -/
theorem createConfigSetFromFile_spec (filename : String) (content : List Char) :
    ∃ cs, createConfigSetFromFile (interpretConfigLine valueText) filename (some content) =
        some (cs, warningsOf valueText
          (Input.visible configFileToolBufsize (content.splitOn '\n'))) ∧
      ∀ n v : List Char, cs[n]? = some v ↔ Line.Holds
        ((Input.visible configFileToolBufsize (content.splitOn '\n')).map (Line.read valueText))
        n v := by
  let raw := Input.visible configFileToolBufsize (content.splitOn '\n')
  have hsize : 0 < configFileToolBufsize := by decide
  obtain ⟨st, hread, hreads⟩ :=
    @createConfigSetFromFile_reads valueText filename content
  have hst : (∀ n v : List Char, st.configSet[n]? = some v ↔
      Line.Holds (raw.map (Line.read valueText)) n v) ∧ st.warnings = warningsOf valueText raw := by
    rcases Input.lines_eq_visible hsize content with heq | heq
    · rw [heq] at hreads
      exact ⟨hreads.config, hreads.warned⟩
    · rw [heq] at hreads
      exact hreads.config_blank blank_nil
  refine ⟨st.configSet, ?_, hst.1⟩
  rw [hread, hst.2]

end

end ConfigFileTool

end Cci
