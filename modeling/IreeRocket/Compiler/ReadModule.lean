import IreeRocket.Compiler.ReadRecords

/-!
# What a module is read as

A function's line gives one decision for each of its records, with the text before the first
occurrence of the attribute's name searched for the symbol. A line that defines an alias gives its
location, and decisions only where the file name itself looks like an attribute.
-/

namespace IreeRocket.Compiler

open ScannedText

/-! ### The array -/

theorem Transparent.intercalate {opening closing : Char} {separator : Text}
    (hseparator : Transparent opening closing separator) {parts : List Text}
    (h : ∀ part ∈ parts, Transparent opening closing part) :
    Transparent opening closing (separator.intercalate parts) := by
  induction parts with
  | nil => exact .nil
  | cons first parts ih =>
    have hfirst := h first List.mem_cons_self
    have hparts := ih fun part hp => h part (List.mem_cons_of_mem _ hp)
    cases parts with
    | nil =>
      rw [List.intercalate_singleton]
      exact hfirst
    | cons second parts =>
      rw [List.intercalate_cons_cons]
      exact (hfirst.append hseparator).append hparts

theorem comma_transparent :
    Transparent '[' ']' ", ".toList ∧ Transparent '\x7b' '\x7d' ", ".toList :=
  ⟨.plain (by decide) (by decide) (by decide), .plain (by decide) (by decide) (by decide)⟩

theorem Record.body_transparent (r : Record) :
    Transparent '[' ']' r.body ∧ Transparent '\x7b' '\x7d' r.body := by
  have hparts : ∀ text ∈ r.entries.map printEntry,
      Transparent '[' ']' text ∧ Transparent '\x7b' '\x7d' text := fun text ht => by
    obtain ⟨entry, he, rfl⟩ := List.mem_map.mp ht
    exact printEntry_transparent (Record.key_mem he) (Record.value_entry he)
  exact ⟨comma_transparent.1.intercalate fun text ht => (hparts text ht).1,
    comma_transparent.2.intercalate fun text ht => (hparts text ht).2⟩

theorem Record.print_transparent (r : Record) : Transparent '[' ']' r.print := by
  have hopen : Transparent '[' ']' ['\x7b'] := .singleton (by decide) (by decide) (by decide)
  have hclose : Transparent '[' ']' ['\x7d'] := .singleton (by decide) (by decide) (by decide)
  exact hopen.append (r.body_transparent.1.append hclose)

theorem array_transparent (records : List Record) : Transparent '[' ']' (printArray records) :=
  comma_transparent.1.intercalate fun text ht => by
    obtain ⟨r, -, rfl⟩ := List.mem_map.mp ht
    exact r.print_transparent

/-- **The groups of the array are the dictionaries.** -/
theorem topLevelGroups_array (records : List Record) :
    topLevelGroups (printArray records) '\x7b' '\x7d' = records.map Record.body := by
  have hgroup : ∀ (r : Record) (rest : Text), topLevelGroups (r.print ++ rest) '\x7b' '\x7d' =
      r.body :: topLevelGroups rest '\x7b' '\x7d' := fun r rest => by
    rw [r.print_eq, List.cons_append, List.append_assoc]
    exact topLevelGroups_group r.body_transparent.2 (by decide) (by decide) (by decide) rest
  induction records with
  | nil => exact topLevelGroups_nil (by decide)
  | cons r records ih =>
    cases records with
    | nil =>
      rw [printArray, List.map_singleton, List.intercalate_singleton, ← List.append_nil r.print, hgroup,
        topLevelGroups_nil List.not_mem_nil]
      rfl
    | cons second records =>
      rw [printArray, List.map_cons, List.map_cons, List.intercalate_cons_cons, List.append_assoc, hgroup,
        topLevelGroups_append (by decide)]
      exact congrArg (r.body :: ·) ih

/-! ### A function's line -/

/-- What of a character is not printed as it is consists of these. -/
def escapeText : Text := '\\' :: "0123456789ABCDEF".toList

theorem escapeChar_escaped (c : Char) :
    escapeChar c = [c] ∨ (escapeChar c ≠ [] ∧ ∀ d ∈ escapeChar c, d ∈ escapeText) := by
  rcases escapeChar_cases c with ⟨h, -⟩ | ⟨hlength, -⟩
  · exact .inl h
  have hne : escapeChar c ≠ [] := fun h => by
    rw [h] at hlength
    exact Nat.not_lt_zero _ hlength
  revert hne hlength
  unfold escapeChar
  split_ifs with hslash hprint
  · exact fun _ hne => .inr ⟨hne, by decide⟩
  · exact fun _ _ => .inl rfl
  · refine fun _ hne => .inr ⟨hne, ?_⟩
    refine hex_induction (motive := fun text => ∀ d ∈ text, d ∈ escapeText) c
      (fun d hd => absurd hd List.not_mem_nil) fun high hhigh low hlow rest ih d hd => ?_
    rcases List.mem_cons.mp hd with rfl | hd
    · exact List.mem_cons_self
    rcases List.mem_cons.mp hd with rfl | hd
    · exact List.mem_cons_of_mem _ hhigh
    rcases List.mem_cons.mp hd with rfl | hd
    · exact List.mem_cons_of_mem _ hlow
    · exact ih d hd

section Pattern

variable {pattern : Text} (hpattern : ∀ c ∈ pattern, c ∉ escapeText)

include hpattern

theorem prefix_of_escape {text : Text} (h : pattern <+: escape text) : pattern <+: text := by
  induction text generalizing pattern with
  | nil => exact h
  | cons c text ih =>
    cases pattern with
    | nil => exact List.nil_prefix
    | cons d pattern =>
      rw [escape, List.flatMap_cons, ← escape] at h
      rcases escapeChar_escaped c with hc | ⟨hne, hall⟩
      · rw [hc, List.singleton_append] at h
        obtain ⟨rfl, htail⟩ := List.cons_prefix_cons.mp h
        exact List.cons_prefix_cons.mpr
          ⟨rfl, ih (fun e he => hpattern e (List.mem_cons_of_mem _ he)) htail⟩
      · obtain ⟨e, tail, htail⟩ := List.exists_cons_of_ne_nil hne
        rw [htail, List.cons_append] at h
        obtain ⟨rfl, -⟩ := List.cons_prefix_cons.mp h
        exact absurd (hall d (htail ▸ List.mem_cons_self)) (hpattern d List.mem_cons_self)

/-- A pattern that no escape has a character of stands in the printed text only where it stands in
the text. -/
theorem infix_of_escape {text : Text} (h : pattern <:+: escape text) : pattern <:+: text := by
  induction text with
  | nil => exact h
  | cons c text ih =>
    rw [escape, List.flatMap_cons, ← escape] at h
    rcases escapeChar_escaped c with hc | ⟨-, hall⟩
    · rw [hc, List.singleton_append, List.infix_cons_iff] at h
      rcases h with h | h
      · have hstart : pattern <+: escape (c :: text) := by
          rwa [escape, List.flatMap_cons, ← escape, hc, List.singleton_append]
        exact (prefix_of_escape hpattern hstart).isInfix
      · exact (ih h).trans (List.suffix_cons c text).isInfix
    · cases pattern with
      | nil => exact List.nil_infix
      | cons d pattern =>
        have hd := hpattern d List.mem_cons_self
        revert h hall
        generalize escapeChar c = escaped
        intro hall h
        induction escaped with
        | nil => exact (ih h).trans (List.suffix_cons c text).isInfix
        | cons e escaped ihe =>
          rw [List.cons_append, List.infix_cons_iff] at h
          rcases h with h | h
          · obtain ⟨rfl, -⟩ := List.cons_prefix_cons.mp h
            exact absurd (hall d List.mem_cons_self) hd
          · exact ihe (fun x hx => hall x (List.mem_cons_of_mem _ hx)) h

end Pattern

/-- The attribute's name and its parts. -/
theorem decisionsAttr_facts : decisionsAttr ≠ [] ∧ (∀ c ∈ ['@', '"', '('], c ∉ decisionsAttr) ∧
    (∀ c ∈ decisionsAttr, c ∉ escapeText) := by decide

theorem splitOnce_marker {left : Text} (hleft : ¬ decisionsAttr <:+: left) (rest : Text) :
    splitOnce decisionsAttr (left ++ (decisionsAttr ++ rest)) = some (left, rest) := by
  have hself : 'r' ∉ "ocket.plan_decisions = ".toList := by decide
  exact splitOnce_append_pattern hself hleft rest

theorem splitOnce_after {left : Text} {c : Char} (hc : c ∈ ['@', '"', '('])
    (hleft : ¬ decisionsAttr <:+: left) (right : Text) :
    splitOnce decisionsAttr (left ++ c :: right) =
      (splitOnce decisionsAttr right).map (Prod.map (left ++ c :: ·) id) := by
  rw [splitOnce_append_cons decisionsAttr_facts.1 (decisionsAttr_facts.2.1 c hc),
    splitOnce_eq_none hleft]

theorem bareIdentifier_unmarked {name : Text} (h : bareIdentifier name = true) :
    ¬ decisionsAttr <:+: name := fun hin => by
  have hchar := bareIdentifier_chars h (hin.subset (show ' ' ∈ decisionsAttr by decide))
  revert hchar
  decide

/-- The attribute of a function's line is found, with the text before it. -/
theorem splitOnce_function (f : PlannedFunction) (hname : ¬ decisionsAttr <:+: f.name)
    (rest : Text) :
    splitOnce decisionsAttr
        (f.opening ++ (printSymbol f.name ++ (f.signature ++ (decisionsAttr ++ rest)))) =
      some (f.opening ++ (printSymbol f.name ++ f.signature), rest) := by
  rw [printSymbol, List.cons_append, splitOnce_after (by decide) f.openingUnmarked]
  obtain ⟨tail, htail⟩ : ∃ tail, f.signature = '(' :: tail :=
    List.head?_eq_some_iff.mp f.signatureParen
  have hsignature := splitOnce_marker f.signatureUnmarked rest
  by_cases hbare : bareIdentifier f.name = true
  · have hnone : ¬ decisionsAttr <:+: tail := fun h =>
      f.signatureUnmarked (htail ▸ h.trans (List.suffix_cons _ _).isInfix)
    rw [if_pos hbare, htail, List.cons_append,
      splitOnce_after (by decide) (bareIdentifier_unmarked hbare), splitOnce_marker hnone]
    rfl
  · have hescape : ¬ decisionsAttr <:+: escape f.name := fun h =>
      hname (infix_of_escape decisionsAttr_facts.2.2 h)
    have hquote : ¬ decisionsAttr <:+: ([] : Text) := fun h =>
      decisionsAttr_facts.1 (List.infix_nil.mp h)
    have hnil := splitOnce_after (c := '"') (by decide) hquote
      (escape f.name ++ '"' :: (f.signature ++ (decisionsAttr ++ rest)))
    rw [List.nil_append, splitOnce_after (by decide) hescape, hsignature] at hnil
    have hshape : quoted f.name ++ (f.signature ++ (decisionsAttr ++ rest)) =
        '"' :: (escape f.name ++ '"' :: (f.signature ++ (decisionsAttr ++ rest))) := by
      rw [quoted, List.cons_append, List.cons_append, List.append_assoc, List.singleton_append]
    rw [if_neg hbare, hshape, hnil]
    simp [quoted]

theorem plannedGroups_function (f : PlannedFunction) (hname : ¬ decisionsAttr <:+: f.name) :
    plannedGroups f.print =
      some (f.opening ++ (printSymbol f.name ++ f.signature), f.records.map Record.body) := by
  have hbalanced : balanced ('[' :: (printArray f.records ++ ']' :: f.closing)) '[' ']' =
      some (printArray f.records) :=
    balanced_eq (array_transparent f.records) (by decide) (by decide) (by decide) f.closing
  rw [plannedGroups, PlannedFunction.print, splitOnce_function f hname]
  simp only [hbalanced, topLevelGroups_array]

/-- **A function's line gives its records in order**, as they are read, where its name does not hold
the attribute's. -/
theorem lineDecisions_function (alphanumeric : Alphanumeric) (f : PlannedFunction)
    (hname : ¬ decisionsAttr <:+: f.name) {aliases : List (Text × Text)}
    (halias : ∀ r ∈ f.records, ∀ n, r.aliasIndex = some n →
      aliases.lookup (aliasName n) = some r.location.read) :
    lineDecisions alphanumeric aliases f.print = f.records.map (Record.read f.name) := by
  rw [lineDecisions, plannedGroups_function f hname]
  simp only [symbolName_print alphanumeric f.openingAt f.name f.signatureParen, Option.getD_some,
    List.map_map]
  exact List.map_congr_left fun r hr => parseDecision_body f.name r (halias r hr)

/-! ### Functions read without the attribute's name -/

theorem assignField_function (aliases : List (Text × Text)) (decision : Decision) (key : String)
    (value : Text) : (assignField aliases decision key value).function = decision.function := by
  unfold assignField
  split <;> rfl

theorem parseField_function (aliases : List (Text × Text)) (decision : Decision) (field : Text) :
    (parseField aliases decision field).function = decision.function := by
  unfold parseField
  split
  · rfl
  · exact assignField_function _ _ _ _

theorem parseDecision_function (function entry : Text) (aliases : List (Text × Text)) :
    (parseDecision function entry aliases).function = function := by
  have hfold : ∀ (fields : List Text) (decision : Decision),
      (fields.foldl (parseField aliases) decision).function = decision.function := by
    intro fields
    induction fields with
    | nil => exact fun _ => rfl
    | cons field fields ih =>
      exact fun decision => (ih _).trans (parseField_function aliases decision field)
  exact hfold _ _

/-- A symbol is a part of the text it is read from. -/
theorem symbolName_within {alphanumeric : Alphanumeric} {text name : Text}
    (h : symbolName alphanumeric text = some name) : name <:+: text := by
  cases hat : splitOnce ['@'] text with
  | none =>
    rw [symbolName, hat] at h
    cases h
  | some parts =>
    obtain ⟨before, rest⟩ := parts
    obtain ⟨rfl, -⟩ := splitOnce_some (List.cons_ne_nil _ _) hat
    refine List.IsInfix.trans ?_ (List.suffix_append (before ++ ['@']) rest).isInfix
    rw [symbolName, hat] at h
    split at h
    · rename_i heq
      cases heq
    · rename_i quoted heq
      obtain ⟨-, rfl⟩ := Prod.mk.inj (Option.some.inj heq)
      obtain ⟨⟨inner, after⟩, hquote, rfl⟩ := Option.map_eq_some_iff.mp h
      obtain ⟨rfl, -⟩ := splitOnce_some (List.cons_ne_nil _ _) hquote
      exact ⟨['"'], ['"'] ++ after, by simp⟩
    · rename_i heq
      obtain ⟨-, rfl⟩ := Prod.mk.inj (Option.some.inj heq)
      rw [← Option.some.inj h]
      exact (List.takeWhile_prefix _).isInfix

/-- The text before the first occurrence holds none, so a function read from it has no name with
one. -/
theorem lineDecisions_unmarked {alphanumeric : Alphanumeric} {aliases : List (Text × Text)}
    {line : Text} {d : Decision} (h : d ∈ lineDecisions alphanumeric aliases line) :
    ¬ decisionsAttr <:+: d.function := by
  intro hin
  cases hmarker : splitOnce decisionsAttr line with
  | none =>
    rw [lineDecisions, plannedGroups, hmarker] at h
    exact absurd h List.not_mem_nil
  | some parts =>
    obtain ⟨before, after⟩ := parts
    have hbefore := (splitOnce_some decisionsAttr_facts.1 hmarker).2
    rw [lineDecisions, plannedGroups, hmarker] at h
    cases hbalanced : balanced after '[' ']' with
    | none =>
      simp only [hbalanced, List.not_mem_nil] at h
    | some text =>
      simp only [hbalanced] at h
      obtain ⟨entry, -, rfl⟩ := List.mem_map.mp h
      rw [parseDecision_function] at hin
      cases hsymbol : symbolName alphanumeric before with
      | none =>
        rw [hsymbol, Option.getD_none] at hin
        exact decisionsAttr_facts.1 (List.infix_nil.mp hin)
      | some name =>
        rw [hsymbol, Option.getD_some] at hin
        exact hbefore (hin.trans (symbolName_within hsymbol))

/-! ### An alias -/

theorem trimStart_hash (rest : Text) : trimStart ('#' :: rest) = '#' :: rest :=
  List.dropWhile_cons_of_neg (by decide)

theorem aliasName_eq (n : Nat) : ∃ name, aliasName n = '#' :: name ∧ '=' ∉ name ∧
    "loc".toList <+: name := by
  cases n with
  | zero => exact ⟨"loc".toList, rfl, by decide, List.prefix_refl _⟩
  | succ n =>
    refine ⟨"loc".toList ++ (toString (n + 1)).toList, rfl, ?_, List.prefix_append _ _⟩
    rw [List.mem_append, not_or]
    exact ⟨by decide, Delimited.notMem_nat (by decide) _⟩

/-- **An alias is read with its location.** -/
theorem locationAlias_named (n : Nat) (location : Location) :
    locationAlias (aliasName n ++ (" = ".toList ++ location.print)) =
      some (aliasName n, location.read) := by
  obtain ⟨name, hname, hequal, hloc⟩ := aliasName_eq n
  have hsplit : splitOnce " = ".toList (name ++ (" = ".toList ++ location.print)) =
      some (name, location.print) := splitOnce_append_pair (by decide) [' '] hequal location.print
  have hbody : "loc(".toList <+: location.print := by
    cases location with
    | unknown => decide
    | file name line column =>
      exact (((List.prefix_append _ _).trans (List.prefix_append _ _)).trans
        (List.prefix_append _ _)).trans (List.prefix_append _ _)
  have hif : ¬ (¬ "loc".toList <+: name ∨ ¬ "loc(".toList <+: location.print) := by tauto
  rw [hname, List.cons_append, locationAlias, trimStart_hash]
  simp only [hsplit, if_neg hif, formatLocation_print]

theorem trimStart_append {left : Text} (hleft : (trimStart left).head? ≠ some '#') (rest : Text) :
    (trimStart (left ++ '@' :: rest)).head? ≠ some '#' := by
  rw [trimStart, List.dropWhile_append]
  split_ifs with hblank
  · rw [List.dropWhile_cons_of_neg (by decide), List.head?_cons]
    decide
  · cases hdrop : left.dropWhile isWhitespace with
    | nil => exact absurd (hdrop ▸ rfl) hblank
    | cons c tail =>
      rw [trimStart, hdrop] at hleft
      exact hleft

theorem locationAlias_function (f : PlannedFunction) : locationAlias f.print = none := by
  have hhead := trimStart_append f.openingHash ((if bareIdentifier f.name then f.name
    else quoted f.name) ++ (f.signature ++ (decisionsAttr ++
      ('[' :: (printArray f.records ++ ']' :: f.closing)))))
  rw [locationAlias]
  split
  · rename_i rest heq
    refine absurd ?_ hhead
    exact congrArg List.head? heq
  · rfl

/-! ### The lines of a module -/

/-- What is found in a file name as if it were a line. -/
def strayDictionaries (file : Text) : List Text := ((plannedGroups (escape file)).map Prod.snd).getD []

/-- A string that is not closed hides what is in it. -/
theorem balancedFrom_quoteEnd {opening closing : Char} {text tail : Text} (htext : '"' ∉ text)
    (htail : '"' ∉ tail) (depth : Nat) :
    balancedFrom opening closing depth .outside (text ++ '"' :: tail) =
      balancedFrom opening closing depth .outside text := by
  induction text generalizing depth with
  | nil =>
    have hstring : Quoting.string ≠ .outside := nofun
    have hend : balancedFrom opening closing depth .string (tail ++ []) = (balancedFrom opening
      closing depth (tail.foldl Quoting.inString .string) []).map (tail ++ ·) :=
      balancedFrom_string htail hstring depth []
    rw [List.append_nil, balancedFrom, Option.map_none] at hend
    rw [List.nil_append, balancedFrom_quote, hend, balancedFrom]
    rfl
  | cons c text ih =>
    rw [List.mem_cons, not_or] at htext
    rw [List.cons_append, balancedFrom, balancedFrom, if_neg (Ne.symm htext.1),
      if_neg (Ne.symm htext.1)]
    simp only [ih htext.2]

theorem balanced_quoteEnd {opening closing : Char} (hopening : opening ≠ '"') {text tail : Text}
    (htext : '"' ∉ text) (hquote : '"' ∉ tail) (htail : opening ∉ tail) :
    balanced (text ++ '"' :: tail) opening closing = balanced text opening closing := by
  have hpass : ∀ c ∈ '"' :: tail, decide (c ≠ opening) = true := fun c hc => by
    rcases List.mem_cons.mp hc with rfl | hc
    · exact decide_eq_true (Ne.symm hopening)
    · exact decide_eq_true fun heq => htail (heq ▸ hc)
  rw [balanced, balanced, List.dropWhile_append]
  split_ifs with hempty
  · rw [List.dropWhile_eq_nil_iff.mpr hpass, List.isEmpty_iff.mp hempty]
  · have hdrop : '"' ∉ text.dropWhile (· ≠ opening) :=
      fun h => htext ((List.dropWhile_suffix _).subset h)
    rw [balancedFrom_quoteEnd hdrop hquote]

/-- The line of an alias is read as its file name is. -/
theorem plannedGroups_named (file : Text) {start tail : Text} (hstart : ¬ decisionsAttr <:+: start)
    (hquote : '"' ∉ tail) (hbracket : '[' ∉ tail) (hmarker : ¬ decisionsAttr <:+: tail) :
    (plannedGroups (start ++ '"' :: (escape file ++ '"' :: tail))).map Prod.snd =
      (plannedGroups (escape file)).map Prod.snd := by
  have hsplit := splitOnce_append_cons decisionsAttr_facts.1
    (decisionsAttr_facts.2.1 '"' (by decide)) (escape file) tail
  rw [plannedGroups, plannedGroups, splitOnce_after (by decide) hstart, hsplit,
    splitOnce_eq_none hmarker]
  cases hfile : splitOnce decisionsAttr (escape file) with
  | none => rfl
  | some parts =>
    obtain ⟨before, after⟩ := parts
    have hafter : '"' ∉ after := fun h => quote_notMem_escape file <| by
      rw [(splitOnce_some decisionsAttr_facts.1 hfile).1]
      exact List.mem_append_right _ h
    simp only [Option.map_some, Prod.map_apply, id_eq,
      balanced_quoteEnd (show '[' ≠ '"' by decide) hafter hquote hbracket]
    cases balanced after '[' ']' <;> rfl

end IreeRocket.Compiler
