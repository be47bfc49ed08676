import IreeRocket.Compiler.PrintedDecisions
import IreeRocket.Lib.Delimited

/-!
# What the scans find in a record

The scans go through a printed string without leaving it, so brackets and commas in it count for
neither. The dictionaries of an array and the fields of a dictionary are what was printed. A value
is read with a backslash as printed and every other byte that was escaped as its two digits.
-/

namespace IreeRocket.Compiler

open ScannedText

/-! ### Printed strings -/

theorem hexDigit_mem : ∀ n < 16, hexDigit n ∈ "0123456789ABCDEF".toList := by decide

theorem hexBytes_digits {c : Char} {digits : List Char} (h : digits ∈ hexBytes c) :
    ∃ high ∈ "0123456789ABCDEF".toList, ∃ low ∈ "0123456789ABCDEF".toList, digits = [high, low] := by
  obtain ⟨byte, -, rfl⟩ := List.mem_map.mp h
  have hbyte : byte.toNat < 256 := byte.toNat_lt
  exact ⟨_, hexDigit_mem _ (by omega), _, hexDigit_mem _ (Nat.mod_lt _ (by decide)), rfl⟩

/-- What is escaped comes in threes. -/
theorem hex_induction {motive : Text → Prop} (c : Char) (nil : motive [])
    (cons : ∀ high ∈ "0123456789ABCDEF".toList, ∀ low ∈ "0123456789ABCDEF".toList, ∀ rest,
      motive rest → motive ('\\' :: high :: low :: rest)) :
    motive ((hexBytes c).flatMap ('\\' :: ·)) := by
  have h : ∀ digits ∈ hexBytes c, ∃ high ∈ "0123456789ABCDEF".toList,
      ∃ low ∈ "0123456789ABCDEF".toList, digits = [high, low] := fun digits => hexBytes_digits
  generalize hexBytes c = bytes at h
  induction bytes with
  | nil => exact nil
  | cons digits bytes ih =>
    obtain ⟨high, hhigh, low, hlow, rfl⟩ := h digits List.mem_cons_self
    exact cons high hhigh low hlow _ (ih fun d hd => h d (List.mem_cons_of_mem _ hd))

/-- Only printable characters are printed, and no quote. -/
theorem escapeChar_chars {c d : Char} (h : d ∈ escapeChar c) : printable d = true ∧ d ≠ '"' := by
  unfold escapeChar at h
  split_ifs at h with hslash hprint
  · obtain rfl : d = '\\' := by simpa using h
    decide
  · obtain rfl := List.mem_singleton.mp h
    exact hprint
  · revert h
    refine hex_induction (motive := fun text => d ∈ text → printable d = true ∧ d ≠ '"') c
      (fun h => absurd h List.not_mem_nil) fun high hhigh low hlow rest ih h => ?_
    have hdigits : ∀ e ∈ "0123456789ABCDEF".toList, printable e = true ∧ e ≠ '"' := by decide
    rcases List.mem_cons.mp h with rfl | h
    · decide
    rcases List.mem_cons.mp h with rfl | h
    · exact hdigits d hhigh
    rcases List.mem_cons.mp h with rfl | h
    · exact hdigits d hlow
    · exact ih h

theorem escape_chars {text : Text} {d : Char} (h : d ∈ escape text) :
    printable d = true ∧ d ≠ '"' := by
  obtain ⟨c, -, hd⟩ := List.mem_flatMap.mp h
  exact escapeChar_chars hd

theorem quote_notMem_escape (text : Text) : '"' ∉ escape text := fun h => (escape_chars h).2 rfl

/-- A scan in a string is in the string after each printed character. -/
theorem inString_escapeChar (c : Char) :
    (escapeChar c).foldl Quoting.inString .string = .string := by
  unfold escapeChar
  split_ifs with hslash hprint
  · rfl
  · rw [List.foldl_cons, List.foldl_nil, Quoting.inString]
    · nofun
    · exact hslash
    · exact hprint.2
  · refine hex_induction (motive := fun text => text.foldl Quoting.inString .string = .string) c rfl
      fun high hhigh low hlow rest ih => ?_
    have hlow' : ∀ e ∈ "0123456789ABCDEF".toList, Quoting.inString .string e = .string := by decide
    rw [List.foldl_cons, List.foldl_cons, List.foldl_cons]
    exact (congrArg (rest.foldl Quoting.inString) (hlow' low hlow)).trans ih

theorem inString_escape (text : Text) : (escape text).foldl Quoting.inString .string = .string := by
  induction text with
  | nil => rfl
  | cons c text ih =>
    rw [escape, List.flatMap_cons, List.foldl_append, inString_escapeChar]
    exact ih

/-- Only a quote ends a string. -/
theorem Quoting.inString_ne {q : Quoting} {c : Char} (hc : c ≠ '"') : q.inString c ≠ .outside := by
  unfold Quoting.inString
  split
  · nofun
  · nofun
  · exact absurd rfl hc
  · nofun

/-! ### Brackets -/

section Brackets

variable {opening closing : Char}

theorem balancedFrom_quote (depth : Nat) (rest : Text) :
    balancedFrom opening closing depth .outside ('"' :: rest) =
      (balancedFrom opening closing depth .string rest).map ('"' :: ·) := rfl

theorem balancedFrom_endQuote (depth : Nat) (rest : Text) :
    balancedFrom opening closing depth .string ('"' :: rest) =
      (balancedFrom opening closing depth .outside rest).map ('"' :: ·) := rfl

theorem balancedFrom_string {text : Text} (htext : '"' ∉ text) {q : Quoting} (hq : q ≠ .outside)
    (depth : Nat) (rest : Text) :
    balancedFrom opening closing depth q (text ++ rest) =
      (balancedFrom opening closing depth (text.foldl Quoting.inString q) rest).map (text ++ ·) := by
  induction text generalizing q with
  | nil => exact Option.map_id.symm ▸ rfl
  | cons c text ih =>
    rw [List.mem_cons, not_or] at htext
    rw [List.cons_append, balancedFrom, ih htext.2 (Quoting.inString_ne (Ne.symm htext.1)),
      Option.map_map]
    · rfl
    · exact hq

/-- The scan for the closing bracket goes through the text and is outside of strings after it, at
the same depth. -/
def Transparent (opening closing : Char) (text : Text) : Prop :=
  ∀ depth rest, balancedFrom opening closing depth .outside (text ++ rest) =
    (balancedFrom opening closing depth .outside rest).map (text ++ ·)

theorem Transparent.nil : Transparent opening closing [] := fun _ _ => Option.map_id.symm ▸ rfl

theorem Transparent.append {left right : Text} (hleft : Transparent opening closing left)
    (hright : Transparent opening closing right) : Transparent opening closing (left ++ right) := by
  intro depth rest
  rw [List.append_assoc, hleft, hright, Option.map_map]
  exact congrArg (Option.map · _) (funext fun tail => (List.append_assoc left right tail).symm)

theorem Transparent.singleton {c : Char} (hquote : c ≠ '"') (hopening : c ≠ opening)
    (hclosing : c ≠ closing) : Transparent opening closing [c] := by
  intro depth rest
  rw [List.singleton_append, balancedFrom, if_neg hquote, if_neg hopening, if_neg hclosing]
  rfl

theorem Transparent.plain {text : Text} (hquote : '"' ∉ text) (hopening : opening ∉ text)
    (hclosing : closing ∉ text) : Transparent opening closing text := by
  induction text with
  | nil => exact .nil
  | cons c text ih =>
    rw [List.mem_cons, not_or] at hquote hopening hclosing
    exact (Transparent.singleton (Ne.symm hquote.1) (Ne.symm hopening.1) (Ne.symm hclosing.1)).append
      (ih hquote.2 hopening.2 hclosing.2)

/-- Brackets in a string do not count. -/
theorem Transparent.quoted (text : Text) : Transparent opening closing (quoted text) := by
  intro depth rest
  have hstring : Quoting.string ≠ .outside := nofun
  rw [Compiler.quoted, List.cons_append, List.cons_append, balancedFrom_quote, List.append_assoc,
    balancedFrom_string (quote_notMem_escape text) hstring, inString_escape, List.singleton_append,
    balancedFrom_endQuote, Option.map_map, Option.map_map]
  exact congrArg (Option.map · _) (funext fun tail => by simp)

/-- The text between two brackets is found if the scan goes through it. -/
theorem balanced_eq {text : Text} (h : Transparent opening closing text) (hopening : opening ≠ '"')
    (hclosing : closing ≠ '"') (hne : opening ≠ closing) (rest : Text) :
    balanced (opening :: (text ++ closing :: rest)) opening closing = some text := by
  rw [balanced, List.dropWhile_cons_of_neg (by simp), balancedFrom, if_neg hopening, if_pos rfl, h,
    balancedFrom, if_neg hclosing, if_neg (Ne.symm hne), if_pos rfl, if_pos rfl]
  simp

theorem topLevelGroups_nil {text : Text} (h : opening ∉ text) :
    topLevelGroups text opening closing = [] := by
  have hnil : text.dropWhile (· ≠ opening) = [] :=
    List.dropWhile_eq_nil_iff.mpr fun c hc => decide_eq_true fun heq => h (heq ▸ hc)
  rw [topLevelGroups]
  split
  · rfl
  · rename_i heq
    rw [hnil] at heq
    cases heq

/-- Text before the first bracket is passed over. -/
theorem topLevelGroups_append {text : Text} (h : opening ∉ text) (rest : Text) :
    topLevelGroups (text ++ rest) opening closing = topLevelGroups rest opening closing := by
  have hdrop : (text ++ rest).dropWhile (· ≠ opening) = rest.dropWhile (· ≠ opening) :=
    List.dropWhile_append_of_pos fun c hc => decide_eq_true fun heq => h (heq ▸ hc)
  rw [topLevelGroups, topLevelGroups, hdrop]

theorem topLevelGroups_group {text : Text} (h : Transparent opening closing text)
    (hopening : opening ≠ '"') (hclosing : closing ≠ '"') (hne : opening ≠ closing) (rest : Text) :
    topLevelGroups (opening :: (text ++ closing :: rest)) opening closing =
      text :: topLevelGroups rest opening closing := by
  have hdrop : (opening :: (text ++ closing :: rest)).dropWhile (· ≠ opening) =
      opening :: (text ++ closing :: rest) := List.dropWhile_cons_of_neg (by simp)
  have hrest : (text ++ closing :: rest).drop (1 + text.length) = rest := by
    rw [List.append_cons, List.drop_left' (by rw [List.length_append, List.length_singleton]; omega)]
  rw [topLevelGroups, hdrop]
  simp only [balanced_eq h hopening hclosing hne]
  rw [List.drop_succ_cons, hrest]

end Brackets

/-! ### Separators -/

/-- Characters put before the first part. -/
def beforeParts (text : Text) (parts : List Text) : List Text := text.foldr beforePart parts

theorem beforeParts_append (left right : Text) (parts : List Text) :
    beforeParts (left ++ right) parts = beforeParts left (beforeParts right parts) :=
  List.foldr_append

theorem beforeParts_cons (text part : Text) (parts : List Text) :
    beforeParts text (part :: parts) = (text ++ part) :: parts := by
  induction text with
  | nil => rfl
  | cons c text ih => rw [beforeParts, List.foldr_cons, ← beforeParts, ih]; rfl

section Separators

variable {separator : Char}

theorem topLevelSplitFrom_string {text : Text} (htext : '"' ∉ text) {q : Quoting}
    (hq : q ≠ .outside) (depth : Nat) (rest : Text) :
    topLevelSplitFrom separator depth q (text ++ rest) =
      beforeParts text
        (topLevelSplitFrom separator depth (text.foldl Quoting.inString q) rest) := by
  induction text generalizing q with
  | nil => rfl
  | cons c text ih =>
    rw [List.mem_cons, not_or] at htext
    rw [List.cons_append, topLevelSplitFrom, ih htext.2 (Quoting.inString_ne (Ne.symm htext.1))]
    · rfl
    · exact hq

/-- The scan for separators goes through the text at any depth, and is at the same depth after it,
outside of strings. -/
def Solid (separator : Char) (text : Text) : Prop :=
  ∀ depth rest, topLevelSplitFrom separator depth .outside (text ++ rest) =
    beforeParts text (topLevelSplitFrom separator depth .outside rest)

theorem Solid.append {left right : Text} (hleft : Solid separator left)
    (hright : Solid separator right) : Solid separator (left ++ right) := by
  intro depth rest
  rw [List.append_assoc, hleft, hright, beforeParts_append]

/-- Neither a quote, nor a bracket, nor the separator. -/
def ordinary (separator c : Char) : Bool := c ∉ ['"', '(', '[', '\x7b', ')', ']', '\x7d', separator]

theorem Solid.plain {text : Text} (h : ∀ c ∈ text, ordinary separator c = true) :
    Solid separator text := by
  intro depth rest
  induction text with
  | nil => rfl
  | cons c text ih =>
    have hc := h c List.mem_cons_self
    simp only [ordinary, List.mem_cons, List.not_mem_nil, or_false, not_or, decide_eq_true_eq] at hc
    rw [List.cons_append, topLevelSplitFrom, if_neg hc.1, if_neg (by tauto), if_neg (by tauto),
      if_neg (by tauto), ih fun d hd => h d (List.mem_cons_of_mem _ hd)]
    rfl

theorem Solid.quoted (text : Text) : Solid separator (quoted text) := by
  intro depth rest
  have hstring : Quoting.string ≠ .outside := nofun
  have hopen : ∀ tail, topLevelSplitFrom separator depth .outside ('"' :: tail) =
      beforePart '"' (topLevelSplitFrom separator depth .string tail) := fun _ => rfl
  have hclose : ∀ tail, topLevelSplitFrom separator depth .string ('"' :: tail) =
      beforePart '"' (topLevelSplitFrom separator depth .outside tail) := fun _ => rfl
  rw [Compiler.quoted, List.cons_append, List.cons_append, hopen, List.append_assoc,
    topLevelSplitFrom_string (quote_notMem_escape text) hstring, inString_escape,
    List.singleton_append, hclose, ← List.cons_append, beforeParts_append]
  rfl

/-- A separator between parentheses does not count. -/
theorem Solid.parens {text : Text} (h : Solid separator text) :
    Solid separator ('(' :: (text ++ [')'])) := by
  intro depth rest
  have hopen : ∀ tail, topLevelSplitFrom separator depth .outside ('(' :: tail) =
      beforePart '(' (topLevelSplitFrom separator (depth + 1) .outside tail) := fun _ => rfl
  have hclose : ∀ tail, topLevelSplitFrom separator (depth + 1) .outside (')' :: tail) =
      beforePart ')' (topLevelSplitFrom separator depth .outside tail) := fun _ => rfl
  rw [List.cons_append, hopen, List.append_assoc, h, List.singleton_append, hclose, beforeParts,
    beforeParts, List.foldr_cons, List.foldr_append]
  rfl

/-- The parts of a list printed with commas are the entries, each but the first after a blank. -/
theorem topLevelSplit_intercalate {first : Text} {others : List Text} (hfirst : Solid ',' first)
    (hothers : ∀ part ∈ others, Solid ',' part) :
    topLevelSplit (", ".toList.intercalate (first :: others)) ',' =
      first :: others.map (' ' :: ·) := by
  have hend : ∀ text, Solid ',' text → topLevelSplitFrom ',' 0 .outside text = [text] :=
    fun text h => by
      have := h 0 []
      rw [List.append_nil] at this
      rw [this, topLevelSplitFrom, beforeParts_cons, List.append_nil]
  have hcomma : ∀ tail, topLevelSplitFrom ',' 0 .outside (',' :: tail) =
      [] :: topLevelSplitFrom ',' 0 .outside tail := fun _ => rfl
  have hblank : Solid ',' [' '] := Solid.plain (by decide)
  rw [topLevelSplit]
  induction others generalizing first with
  | nil => rw [List.intercalate_singleton, hend first hfirst, List.map_nil]
  | cons second others ih =>
    have htail := @ih (' ' :: second) (hblank.append (hothers second List.mem_cons_self))
      fun part hp => hothers part (List.mem_cons_of_mem _ hp)
    have hsplit : ", ".toList.intercalate (first :: second :: others) =
        first ++ ',' :: ", ".toList.intercalate ((' ' :: second) :: others) := by
      rw [List.intercalate_cons_cons]
      cases others with
      | nil => simp
      | cons third others => simp [List.intercalate_cons_cons]
    rw [hsplit, hfirst, hcomma, htail, beforeParts_cons, List.append_nil, List.map_cons]

end Separators

end IreeRocket.Compiler
