import IreeRocket.Compiler.ReadValues

/-!
# What a record is read as

The dictionaries of a function's line are found, each is split into its fields, and each field is
read under its key. A module is then read record by record: the aliases are those its lines define,
a function's line gives one decision for each of its records, and the other lines give none unless
the file name in an alias looks like an attribute itself.
-/

namespace IreeRocket.Compiler

open ScannedText

/-! ### One dictionary -/

/-- What is read of a record. -/
def Record.read (function : Text) (r : Record) : Decision where
  function := escape function
  kind := unquotedText r.kind
  layout := unquotedText r.layout
  shape := unquotedText r.shape
  precision := unquotedText r.precision
  decision := unquotedText r.decision
  status := unquotedText r.status
  limit := unquotedText r.limit
  detail := unquotedText r.detail
  jobs := r.jobs
  columns := r.columns
  location := r.location.read

/-- A value as it stands in a dictionary: no blanks around it, and no bracket, separator or quote of
it is met by a scan outside of a string. -/
structure Value (text : Text) : Prop where
  trimmed : trim isWhitespace text = text
  solid : Solid ',' text
  array : Transparent '[' ']' text
  dictionary : Transparent '\x7b' '\x7d' text

theorem ordinary_transparent {text : Text} (h : ∀ c ∈ text, ordinary ',' c = true) :
    Transparent '[' ']' text ∧ Transparent '\x7b' '\x7d' text := by
  have hbrackets : ∀ c ∈ ['"', '[', ']', '\x7b', '\x7d'], ¬ ordinary ',' c = true := by decide
  have hnot : ∀ c ∈ ['"', '[', ']', '\x7b', '\x7d'], c ∉ text := fun c hc hmem =>
    hbrackets c hc (h c hmem)
  exact ⟨.plain (hnot _ (by decide)) (hnot _ (by decide)) (hnot _ (by decide)),
    .plain (hnot _ (by decide)) (hnot _ (by decide)) (hnot _ (by decide))⟩

theorem value_ordinary {text : Text} (htrim : trim isWhitespace text = text)
    (h : ∀ c ∈ text, ordinary ',' c = true) : Value text :=
  ⟨htrim, .plain h, (ordinary_transparent h).1, (ordinary_transparent h).2⟩

theorem value_quoted (text : Text) : Value (quoted text) :=
  ⟨trim_eq_self '"' '"' (by decide) (by decide) rfl
      (by rw [quoted, List.getLast?_append]; rfl),
    .quoted text, .quoted text, .quoted text⟩

theorem digit_mem {c : Char} (h : c.isDigit = true) : c ∈ "0123456789".toList := by
  have hvalues : ∀ n < 58, 48 ≤ n → Char.ofNat n ∈ "0123456789".toList := by decide
  rw [Char.isDigit, Bool.and_eq_true, decide_eq_true_eq, decide_eq_true_eq, ge_iff_le,
    UInt32.le_iff_toNat_le, UInt32.le_iff_toNat_le] at h
  have hends : '0'.val.toNat = 48 ∧ '9'.val.toNat = 57 := by decide
  have hnat : c.toNat = c.val.toNat := rfl
  have hmem := hvalues c.toNat (by omega) (by omega)
  rwa [Char.ofNat_toNat] at hmem

theorem digit_facts {c : Char} (h : c.isDigit = true) :
    isWhitespace c = false ∧ ordinary ',' c = true := by
  have hdigits : ∀ d ∈ "0123456789".toList, isWhitespace d = false ∧ ordinary ',' d = true := by
    decide
  exact hdigits c (digit_mem h)

theorem value_printInteger (n : Int64) : Value (printInteger n) := by
  have hchars : ∀ c ∈ (toString n.toInt).toList,
      isWhitespace c = false ∧ ordinary ',' c = true := fun c hc => by
    rcases Delimited.intChars hc with h | rfl
    · exact digit_facts h
    · decide
  have hne : (toString n.toInt).toList ≠ [] := fun h => by
    have := parseI64_toString n
    rw [h] at this
    cases this
  have hend : ∀ c ∈ " : i64".toList, ordinary ',' c = true := by decide
  refine value_ordinary ?_ fun c hc => ?_
  · obtain ⟨c, rest, hcons⟩ := List.exists_cons_of_ne_nil hne
    refine trim_eq_self c '4' (hchars c (hcons ▸ List.mem_cons_self)).1 (by decide) ?_ ?_
    · rw [printInteger, hcons]; rfl
    · rw [printInteger, List.getLast?_append]; rfl
  · rcases List.mem_append.mp hc with hc | hc
    · exact (hchars c hc).2
    · exact hend c hc

theorem value_aliasName (n : Nat) : Value (aliasName n) := by
  cases n with
  | zero => exact value_ordinary (by decide) (by decide +kernel)
  | succ n =>
    have hstart : ∀ c ∈ "#loc".toList, ordinary ',' c = true := by decide
    refine value_ordinary ?_ fun c hc => ?_
    · obtain ⟨last, hlast⟩ := Option.ne_none_iff_exists'.mp
        (mt List.getLast?_eq_none_iff.mp (natDigits_ne_nil (n + 1)))
      refine trim_eq_self '#' last (by decide)
        (digit_facts (Delimited.natChars (List.mem_of_getLast? hlast))).1 rfl ?_
      rw [aliasName, List.getLast?_append, hlast]
      rfl
    · rcases List.mem_append.mp hc with hc | hc
      · exact hstart c hc
      · exact (digit_facts (Delimited.natChars hc)).2

theorem value_location (location : Location) : Value location.print := by
  cases location with
  | unknown =>
    have hinner : Solid ',' "unknown".toList := .plain (by decide)
    have hloc : Solid ',' "loc".toList := .plain (by decide)
    exact ⟨by decide, hloc.append hinner.parens, .plain (by decide) (by decide) (by decide),
      .plain (by decide) (by decide) (by decide)⟩
  | file name line column =>
    have hshape : ∀ file l k : Text, "loc(".toList ++ file ++ ':' :: l ++ ':' :: k ++ [')'] =
        "loc".toList ++ '(' :: ((file ++ (':' :: (l ++ ':' :: k))) ++ [')']) := fun file l k => by
      simp
    have hnumbers : ∀ c ∈ ':' :: ((toString line).toList ++ ':' :: (toString column).toList),
        ordinary ',' c = true := fun c hc => by
      rcases List.mem_cons.mp hc with rfl | hc
      · decide
      rcases List.mem_append.mp hc with hc | hc
      · exact (digit_facts (Delimited.natChars hc)).2
      rcases List.mem_cons.mp hc with rfl | hc
      · decide
      · exact (digit_facts (Delimited.natChars hc)).2
    have hprint : (Location.file name line column).print = "loc".toList ++ '(' :: ((quoted name ++
        (':' :: ((toString line).toList ++ ':' :: (toString column).toList))) ++ [')']) :=
      hshape _ _ _
    have hname : ∀ c ∈ "loc".toList, ordinary ',' c = true := by decide
    have hloc : Solid ',' "loc".toList := .plain hname
    have hopen : Transparent '[' ']' ['('] ∧ Transparent '\x7b' '\x7d' ['('] :=
      ⟨.singleton (by decide) (by decide) (by decide), .singleton (by decide) (by decide) (by decide)⟩
    have hclose : Transparent '[' ']' [')'] ∧ Transparent '\x7b' '\x7d' [')'] :=
      ⟨.singleton (by decide) (by decide) (by decide), .singleton (by decide) (by decide) (by decide)⟩
    have hinner := (Solid.quoted name).append (Solid.plain hnumbers)
    rw [hprint]
    refine ⟨trim_eq_self 'l' ')' (by decide) (by decide) rfl ?_, hloc.append hinner.parens, ?_, ?_⟩
    · rw [← List.cons_append, ← List.append_assoc, List.getLast?_append]
      rfl
    · exact (ordinary_transparent hname).1.append (hopen.1.append
        (((Transparent.quoted name).append (ordinary_transparent hnumbers).1).append hclose.1))
    · exact (ordinary_transparent hname).2.append (hopen.2.append
        (((Transparent.quoted name).append (ordinary_transparent hnumbers).2).append hclose.2))

/-- The keys of a dictionary. -/
def keys : List String :=
  ["columns", "decision", "detail", "jobs", "kind", "layout", "limit", "loc", "precision", "shape",
    "status"]

theorem Record.keys_entries (r : Record) : r.entries.map Prod.fst = keys := rfl

theorem Record.key_mem {r : Record} {entry : String × Text} (h : entry ∈ r.entries) :
    entry.1 ∈ keys := r.keys_entries ▸ List.mem_map_of_mem h

theorem Record.value_entry {r : Record} {entry : String × Text} (h : entry ∈ r.entries) :
    Value entry.2 := by
  have hloc : Value ((r.aliasIndex.map aliasName).getD r.location.print) := by
    cases r.aliasIndex with
    | none => exact value_location r.location
    | some n => exact value_aliasName n
  have hall : ∀ value ∈ r.entries.map Prod.snd, Value value := by
    rw [Record.entries]
    simp only [List.map_cons, List.map_nil, List.forall_mem_cons]
    exact ⟨value_printInteger _, value_quoted _, value_quoted _, value_printInteger _,
      value_quoted _, value_quoted _, value_quoted _, hloc, value_quoted _, value_quoted _,
      value_quoted _, List.forall_mem_nil _⟩
  exact hall _ (List.mem_map_of_mem h)

theorem key_facts : ∀ key ∈ keys, '=' ∉ key.toList ∧ trim isWhitespace key.toList = key.toList ∧
    ∀ c ∈ key.toList ++ " = ".toList, ordinary ',' c = true := by decide

section Entries

variable {entry : String × Text} (hkey : entry.1 ∈ keys) (hvalue : Value entry.2)

include hkey hvalue

theorem printEntry_solid : Solid ',' (printEntry entry) := by
  rw [printEntry, ← List.append_assoc]
  exact (Solid.plain (key_facts _ hkey).2.2).append hvalue.solid

theorem printEntry_transparent :
    Transparent '[' ']' (printEntry entry) ∧ Transparent '\x7b' '\x7d' (printEntry entry) := by
  have hplain := ordinary_transparent (key_facts _ hkey).2.2
  rw [printEntry, ← List.append_assoc]
  exact ⟨hplain.1.append hvalue.array, hplain.2.append hvalue.dictionary⟩

theorem parseField_first (aliases : List (Text × Text)) (decision : Decision) :
    parseField aliases decision (printEntry entry) =
      assignField aliases decision entry.1 entry.2 := by
  obtain ⟨hequal, htrim, -⟩ := key_facts _ hkey
  have hsplit : splitOnce " = ".toList (printEntry entry) = some (entry.1.toList, entry.2) :=
    splitOnce_append_pair (by decide) [' '] hequal entry.2
  rw [parseField, hsplit]
  simp only [htrim, hvalue.trimmed, String.ofList_toList]

/-- Every field but the first follows a blank. -/
theorem parseField_next (aliases : List (Text × Text)) (decision : Decision) :
    parseField aliases decision (' ' :: printEntry entry) =
      assignField aliases decision entry.1 entry.2 := by
  obtain ⟨hequal, htrim, -⟩ := key_facts _ hkey
  have hequal' : '=' ∉ ' ' :: entry.1.toList := fun h => by
    rcases List.mem_cons.mp h with h | h
    · exact absurd h (by decide)
    · exact hequal h
  have hsplit : splitOnce " = ".toList (' ' :: printEntry entry) =
      some (' ' :: entry.1.toList, entry.2) :=
    splitOnce_append_pair (by decide) [' '] hequal' entry.2
  have hblank : trim isWhitespace (' ' :: entry.1.toList) = entry.1.toList :=
    (trim_cons (by decide) _).trans htrim
  rw [parseField, hsplit]
  simp only [hblank, hvalue.trimmed, String.ofList_toList]

end Entries

theorem foldl_parseField {entries : List (String × Text)}
    (h : ∀ entry ∈ entries, entry.1 ∈ keys ∧ Value entry.2) (aliases : List (Text × Text))
    (decision : Decision) :
    ((entries.map printEntry).map (' ' :: ·)).foldl (parseField aliases) decision =
      entries.foldl (fun d entry => assignField aliases d entry.1 entry.2) decision := by
  induction entries generalizing decision with
  | nil => rfl
  | cons entry entries ih =>
    have hentry := h entry List.mem_cons_self
    rw [List.map_cons, List.map_cons, List.foldl_cons, List.foldl_cons,
      parseField_next hentry.1 hentry.2, ih fun e he => h e (List.mem_cons_of_mem _ he)]

/-- The text between the braces of a dictionary. -/
def Record.body (r : Record) : Text := ", ".toList.intercalate (r.entries.map printEntry)

theorem Record.print_eq (r : Record) : r.print = '\x7b' :: (r.body ++ ['\x7d']) := rfl

/-- **A dictionary is read field by field.** An alias is what the map has for it. -/
theorem parseDecision_body (function : Text) (r : Record) {aliases : List (Text × Text)}
    (halias : ∀ n, r.aliasIndex = some n → aliases.lookup (aliasName n) = some r.location.read) :
    parseDecision (escape function) r.body aliases = r.read function := by
  have hentries : ∀ entry ∈ r.entries, entry.1 ∈ keys ∧ Value entry.2 :=
    fun entry he => ⟨Record.key_mem he, Record.value_entry he⟩
  have hsolid : ∀ text ∈ r.entries.map printEntry, Solid ',' text := fun text ht => by
    obtain ⟨entry, he, rfl⟩ := List.mem_map.mp ht
    exact printEntry_solid (hentries entry he).1 (hentries entry he).2
  have hloc : ∀ d : Decision, assignField aliases d "loc"
      ((r.aliasIndex.map aliasName).getD r.location.print) = { d with location := r.location.read } := by
    intro d
    cases halias' : r.aliasIndex with
    | none =>
      have hhead : ¬ r.location.print.head? = some '#' := by
        rw [show r.location.print.head? = some 'l' by cases r.location <;> rfl]
        decide
      simp only [Option.map_none, Option.getD_none, assignField, if_neg hhead, formatLocation_print]
    | some n =>
      have hhead : (aliasName n).head? = some '#' := by cases n <;> rfl
      simp only [Option.map_some, Option.getD_some, assignField, if_pos hhead, halias n halias']
  have hsplit : topLevelSplit r.body ',' =
      printEntry ("columns", printInteger r.columns) ::
        (r.entries.tail.map printEntry).map (' ' :: ·) :=
    topLevelSplit_intercalate (hsolid _ List.mem_cons_self)
      fun text ht => hsolid text (List.mem_cons_of_mem _ ht)
  rw [parseDecision, hsplit, List.foldl_cons,
    parseField_first (hentries _ List.mem_cons_self).1 (hentries _ List.mem_cons_self).2,
    foldl_parseField fun entry he => hentries entry (List.mem_of_mem_tail he)]
  simp only [Record.entries, List.tail_cons, List.foldl_cons, List.foldl_nil, hloc]
  simp only [assignField, unquote_quoted, leadingInteger_print]
  rfl

end IreeRocket.Compiler
