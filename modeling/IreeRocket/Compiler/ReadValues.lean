import IreeRocket.Compiler.ScannedRecords

/-!
# What the values are read as

`unquote` takes the two characters after a backslash apart: the second backslash is the character,
and so is the first hexadecimal digit of a byte. Locations and symbols are read without their
escapes undone. Each reading is the text itself exactly where nothing was escaped that it does not
undo.
-/

namespace IreeRocket.Compiler

open ScannedText

/-! ### Strings -/

/-- What is read of one printed character. -/
def unquoteChar (c : Char) : Text :=
  if c = '\\' then ['\\']
  else if printable c ∧ c ≠ '"' then [c]
  else (hexBytes c).flatten

theorem unquoted_other {c : Char} (hquote : c ≠ '"') (hslash : c ≠ '\\') (rest : Text) :
    unquoted (c :: rest) = c :: unquoted rest := by
  rw [unquoted]
  · exact hquote
  · exact fun _ h _ => hslash h
  · exact fun _ h _ => hslash h
  · exact fun _ _ h _ => hslash h
  · exact fun h _ => hslash h

theorem unquoted_escapeChar (c : Char) (rest : Text) :
    unquoted (escapeChar c ++ rest) = unquoteChar c ++ unquoted rest := by
  unfold escapeChar unquoteChar
  split_ifs with hslash hprint
  · rfl
  · exact unquoted_other hprint.2 hslash rest
  · have h : ∀ digits ∈ hexBytes c, ∃ high ∈ "0123456789ABCDEF".toList,
        ∃ low ∈ "0123456789ABCDEF".toList, digits = [high, low] := fun digits => hexBytes_digits
    generalize hexBytes c = bytes at h
    induction bytes with
    | nil => rfl
    | cons digits bytes ih =>
      obtain ⟨high, hhigh, low, hlow, rfl⟩ := h digits List.mem_cons_self
      have hhigh' : ∀ e ∈ "0123456789ABCDEF".toList, e ≠ 'n' ∧ e ≠ 't' := by decide
      have hlow' : ∀ e ∈ "0123456789ABCDEF".toList, e ≠ '"' ∧ e ≠ '\\' := by decide
      obtain ⟨hn, ht⟩ := hhigh' high hhigh
      obtain ⟨hquote, hslash'⟩ := hlow' low hlow
      -- the backslash takes the first digit with it, and the second is read as a character
      rw [List.flatMap_cons, List.cons_append, List.cons_append, List.cons_append, List.cons_append,
        unquoted.eq_5 _ _ hn ht, List.cons_append, List.nil_append,
        List.cons_append, unquoted_other hquote hslash',
        ih fun d hd => h d (List.mem_cons_of_mem _ hd)]
      rfl

/-- What `unquote` reads of a printed string. -/
def unquotedText (text : Text) : Text := text.flatMap unquoteChar

theorem unquote_quoted (text : Text) : unquote (quoted text) = unquotedText text := by
  have h : unquoted (escape text ++ ['"']) = unquotedText text := by
    induction text with
    | nil => rfl
    | cons c text ih =>
      rw [escape, List.flatMap_cons, List.append_assoc, unquoted_escapeChar, unquotedText,
        List.flatMap_cons]
      exact congrArg (unquoteChar c ++ ·) ih
  exact h

/-- Printed as it is, or as two backslashes. -/
def Plain (text : Text) : Prop := ∀ c ∈ text, printable c = true ∧ c ≠ '"'

/-- Printed as it is. -/
def Verbatim (text : Text) : Prop := ∀ c ∈ text, printable c = true ∧ c ≠ '"' ∧ c ≠ '\\'

instance (text : Text) : Decidable (Plain text) := inferInstanceAs (Decidable (∀ c ∈ text, _))

instance (text : Text) : Decidable (Verbatim text) := inferInstanceAs (Decidable (∀ c ∈ text, _))

theorem length_hexBytes (c : Char) : (hexBytes c).flatten.length = 2 * c.utf8Size := by
  have h : ∀ digits ∈ hexBytes c, digits.length = 2 := fun digits hd => by
    obtain ⟨high, -, low, -, rfl⟩ := hexBytes_digits hd
    rfl
  have hlength : (hexBytes c).length = c.utf8Size := by
    rw [hexBytes, List.length_map, String.length_utf8EncodeChar]
  rw [← hlength]
  generalize hexBytes c = bytes at h
  induction bytes with
  | nil => rfl
  | cons digits bytes ih =>
    rw [List.flatten_cons, List.length_append, h digits List.mem_cons_self,
      ih fun d hd => h d (List.mem_cons_of_mem _ hd), List.length_cons]
    omega

/-- Text that is mapped to as many characters or more is left as it is only where every character
is. -/
theorem flatMap_eq_self_iff {f : Char → Text} (hf : ∀ c, f c = [c] ∨ 1 < (f c).length)
    (text : Text) : text.flatMap f = text ↔ ∀ c ∈ text, f c = [c] := by
  have hiff := flatMap_eq_iff (g := fun c => [c]) (f := f) (l := text) fun c _ => by
    rcases hf c with h | h
    · rw [h]
    · exact h.le
  rwa [List.flatMap_singleton'] at hiff

theorem unquoteChar_cases (c : Char) : (unquoteChar c = [c] ∧ printable c = true ∧ c ≠ '"') ∨
    (1 < (unquoteChar c).length ∧ ¬ (printable c = true ∧ c ≠ '"')) := by
  unfold unquoteChar
  split_ifs with hslash hprint
  · subst hslash
    exact .inl ⟨rfl, by decide⟩
  · exact .inl ⟨rfl, hprint⟩
  · refine .inr ⟨?_, hprint⟩
    rw [length_hexBytes]
    have := c.utf8Size_pos
    omega

theorem escapeChar_cases (c : Char) : (escapeChar c = [c] ∧ printable c = true ∧ c ≠ '"' ∧ c ≠ '\\') ∨
    (1 < (escapeChar c).length ∧ ¬ (printable c = true ∧ c ≠ '"' ∧ c ≠ '\\')) := by
  unfold escapeChar
  split_ifs with hslash hprint
  · exact .inr ⟨by decide, fun h => h.2.2 hslash⟩
  · exact .inl ⟨rfl, hprint.1, hprint.2, hslash⟩
  · refine .inr ⟨?_, fun h => hprint ⟨h.1, h.2.1⟩⟩
    cases hbytes : hexBytes c with
    | nil =>
      have hlength := length_hexBytes c
      have := c.utf8Size_pos
      rw [hbytes, List.flatten_nil, List.length_nil] at hlength
      omega
    | cons digits bytes =>
      obtain ⟨high, -, low, -, rfl⟩ := hexBytes_digits (hbytes ▸ List.mem_cons_self)
      simp

/-- **A string field is read as it is exactly where it has no quote and no byte that is not
printable.** -/
theorem unquotedText_eq_iff (text : Text) : unquotedText text = text ↔ Plain text := by
  rw [unquotedText, flatMap_eq_self_iff fun c => (unquoteChar_cases c).imp And.left And.left]
  refine forall₂_congr fun c _ => ?_
  rcases unquoteChar_cases c with ⟨h, hprint⟩ | ⟨h, hprint⟩
  · exact iff_of_true h hprint
  · exact iff_of_false (fun heq => lt_irrefl 1 (by rwa [heq] at h)) hprint

/-- **Text whose escapes are not undone is as it was exactly where it has none.** -/
theorem escape_eq_iff (text : Text) : escape text = text ↔ Verbatim text := by
  rw [escape, flatMap_eq_self_iff fun c => (escapeChar_cases c).imp And.left And.left]
  refine forall₂_congr fun c _ => ?_
  rcases escapeChar_cases c with ⟨h, hprint⟩ | ⟨h, hprint⟩
  · exact iff_of_true h hprint
  · exact iff_of_false (fun heq => lt_irrefl 1 (by rwa [heq] at h)) hprint

/-! ### Numbers -/

theorem takeWhile_all {p : Char → Bool} {text : Text} (h : ∀ c ∈ text, p c = true) {c : Char}
    (hc : p c = false) (rest : Text) : (text ++ c :: rest).takeWhile p = text := by
  rw [List.takeWhile_append_of_pos h, List.takeWhile_cons_of_neg (by rw [hc]; exact Bool.false_ne_true),
    List.append_nil]

theorem natDigits (n : Nat) : (toString n).toList = Nat.toDigits 10 n := Nat.toList_repr

theorem natDigits_all (n : Nat) : (toString n).toList.all Char.isDigit = true :=
  List.all_eq_true.mpr fun _ h => Delimited.natChars h

theorem natDigits_ne_nil (n : Nat) : (toString n).toList ≠ [] := by
  rw [natDigits]
  exact Nat.toDigits_ne_nil

theorem natDigits_head (n : Nat) : (toString n).toList.head? ≠ some '-' := fun h => by
  have hminus := Delimited.natChars (List.mem_of_head? h)
  revert hminus
  decide

theorem natDigits_value (n : Nat) : Nat.ofDigitChars 10 (toString n).toList 0 = n := by
  rw [natDigits, Nat.ofDigitChars_ten_toDigits]

theorem parseI64_nat {n : Nat} (h : n < 2 ^ 63) :
    parseI64 (toString n).toList = some (Int64.ofInt n) := by
  simp only [parseI64, if_neg (natDigits_head n), natDigits_value]
  exact if_pos ⟨natDigits_ne_nil n, natDigits_all n, by omega, by omega⟩

theorem parseI64_minus {n : Nat} (h : n ≤ 2 ^ 63) :
    parseI64 ('-' :: (toString n).toList) = some (Int64.ofInt (-n)) := by
  have hhead : ('-' :: (toString n).toList).head? = some '-' := rfl
  simp only [parseI64, if_pos hhead, List.tail_cons, natDigits_value]
  exact if_pos ⟨natDigits_ne_nil n, natDigits_all n, by omega, by omega⟩

theorem parseI64_toString (n : Int64) : parseI64 (toString n.toInt).toList = some n := by
  have hlow := n.le_toInt
  have hhigh := n.toInt_lt
  rw [Int.toString_eq_repr, Int.repr_eq_if]
  split_ifs with h
  · have hparse := parseI64_nat (n := n.toInt.toNat) (by omega)
    rwa [Int.toNat_of_nonneg h, Int64.ofInt_toInt] at hparse
  · have hparse := parseI64_minus (n := (-n.toInt).toNat) (by omega)
    rw [Int.toNat_of_nonneg (by omega), Int.neg_neg, Int64.ofInt_toInt] at hparse
    rw [String.toList_append]
    exact hparse

/-- **A printed integer is read back.** -/
theorem leadingInteger_print (n : Int64) : leadingInteger (printInteger n) = n := by
  have hall : ∀ c ∈ (toString n.toInt).toList, (c.isDigit || c == '-') = true := fun c hc => by
    rcases Delimited.intChars hc with h | rfl
    · rw [h]; rfl
    · rfl
  have htake := takeWhile_all hall (c := ' ') (by decide) ": i64".toList
  have hprint : printInteger n = (toString n.toInt).toList ++ ' ' :: ": i64".toList := rfl
  rw [leadingInteger, hprint, htake, parseI64_toString]
  rfl

/-! ### Locations and symbols -/

/-- What is read of a location: its file name with the escapes. -/
def Location.read : Location → Text
  | .file name line column => (Location.file (escape name) line column).text
  | .unknown => Location.unknown.text

/-- What follows the file name. -/
def locationTail (line column : Nat) : Text :=
  ':' :: ((toString line).toList ++ ':' :: (toString column).toList ++ [')'])

theorem Location.print_file (name : Text) (line column : Nat) :
    (Location.file name line column).print =
      "loc(".toList ++ '"' :: (escape name ++ '"' :: locationTail line column) := by
  have hshape : ∀ start file l k : Text, start ++ ('"' :: file ++ ['"']) ++ ':' :: l ++ ':' :: k ++
      [')'] = start ++ '"' :: (file ++ '"' :: ':' :: (l ++ ':' :: k ++ [')'])) := by simp
  exact hshape _ _ _ _

theorem formatLocation_print (location : Location) :
    formatLocation location.print = location.read := by
  cases location with
  | unknown => decide
  | file name line column =>
    have hdigits : ∀ c ∈ (toString line).toList ++ ':' :: (toString column).toList,
        (c.isDigit || c == ':') = true := fun c hc => by
      rcases List.mem_append.mp hc with h | h
      · rw [Delimited.natChars h]; rfl
      rcases List.mem_cons.mp h with rfl | h
      · rfl
      · rw [Delimited.natChars h]; rfl
    have htake := takeWhile_all hdigits (c := ')') (by decide) []
    have hstart : ∀ tail, trimStart (':' :: tail) = ':' :: tail := fun tail =>
      List.dropWhile_cons_of_neg (by decide)
    rw [Location.print_file, formatLocation, splitOnce_char (by decide)]
    simp only [splitOnce_char (quote_notMem_escape name), locationTail, hstart, htake]
    rw [if_neg (List.append_ne_nil_of_left_ne_nil (natDigits_ne_nil line) _)]
    exact (List.append_assoc (escape name) (':' :: (toString line).toList) _).symm

theorem Location.read_eq_iff (location : Location) :
    location.read = location.text ↔
      ∀ name line column, location = .file name line column → Verbatim name := by
  cases location with
  | unknown => exact iff_of_true rfl nofun
  | file name line column =>
    have hcancel : (Location.file name line column).read = (Location.file name line column).text ↔
        escape name = name :=
      (List.append_left_inj _).trans (List.append_left_inj _)
    rw [hcancel, escape_eq_iff]
    refine ⟨fun h name' line' column' heq => ?_, fun h => h name line column rfl⟩
    cases heq
    exact h

theorem isAlphanum_range {c : Char} (h : c.isAlphanum = true) :
    0x30 ≤ c.toNat ∧ c.toNat ≤ 0x7A ∧ c.toNat ≠ 0x5C := by
  have hnat : c.toNat = c.val.toNat := rfl
  simp only [Char.isAlphanum, Char.isAlpha, Char.isUpper, Char.isLower, Char.isDigit, Bool.or_eq_true,
    Bool.and_eq_true, decide_eq_true_eq, ge_iff_le, UInt32.le_iff_toNat_le] at h
  have hends : '0'.val.toNat = 0x30 ∧ '9'.val.toNat = 0x39 ∧ 'A'.val.toNat = 0x41 ∧
      'Z'.val.toNat = 0x5A ∧ 'a'.val.toNat = 0x61 ∧ 'z'.val.toNat = 0x7A := by decide
  omega

/-- The characters of a bare identifier. -/
def symbolChar (c : Char) : Bool := c.isAlphanum || c == '_' || c == '$' || c == '.'

theorem bareIdentifier_chars {name : Text} (h : bareIdentifier name = true) {c : Char}
    (hc : c ∈ name) : symbolChar c = true := by
  cases name with
  | nil => cases h
  | cons d rest =>
    rw [bareIdentifier, Bool.and_eq_true] at h
    rcases List.mem_cons.mp hc with rfl | hc
    · rcases Bool.or_eq_true_iff.mp h.1 with h | h
      · simp [symbolChar, Char.isAlphanum, h]
      · simp [symbolChar, h]
    · exact List.all_eq_true.mp h.2 c hc

theorem symbolChar_cases {c : Char} (h : symbolChar c = true) :
    c.isAlphanum = true ∨ c ∈ ['_', '$', '.'] := by
  simp only [symbolChar, Bool.or_eq_true, beq_iff_eq] at h
  simp only [List.mem_cons, List.not_mem_nil, or_false]
  tauto

theorem symbolChar_verbatim {c : Char} (h : symbolChar c = true) :
    printable c = true ∧ c ≠ '"' ∧ c ≠ '\\' := by
  rcases symbolChar_cases h with h | h
  · obtain ⟨hlow, hhigh, hslash⟩ := isAlphanum_range h
    refine ⟨?_, ?_, ?_⟩
    · rw [printable, Bool.and_eq_true, decide_eq_true_eq, decide_eq_true_eq]
      omega
    · rintro rfl
      exact absurd hlow (by decide)
    · rintro rfl
      exact hslash rfl
  · have hothers : ∀ d ∈ ['_', '$', '.'], printable d = true ∧ d ≠ '"' ∧ d ≠ '\\' := by decide
    exact hothers c h

theorem Alphanumeric.symbolChar (alphanumeric : Alphanumeric) {c : Char}
    (h : Compiler.symbolChar c = true) : (alphanumeric.holds c || c ∈ ['_', '$', '.']) = true := by
  rw [Bool.or_eq_true, decide_eq_true_eq]
  rcases symbolChar_cases h with h | h
  · obtain ⟨-, hhigh, -⟩ := isAlphanum_range h
    exact .inl ((alphanumeric.ascii c (by omega)).trans h)
  · exact .inr h

/-- **A symbol is read with its escapes.** A bare one has none. -/
theorem symbolName_print (alphanumeric : Alphanumeric) {opening : Text} (hopening : '@' ∉ opening)
    (name : Text) {signature : Text} (hsignature : signature.head? = some '(') :
    symbolName alphanumeric (opening ++ (printSymbol name ++ signature)) = some (escape name) := by
  rw [printSymbol, List.cons_append, symbolName, splitOnce_char hopening]
  obtain ⟨tail, rfl⟩ : ∃ tail, signature = '(' :: tail := List.head?_eq_some_iff.mp hsignature
  by_cases hbare : bareIdentifier name = true
  · have hescape : escape name = name :=
      (escape_eq_iff name).mpr fun c hc => symbolChar_verbatim (bareIdentifier_chars hbare hc)
    have hparen : (alphanumeric.holds '(' || decide ('(' ∈ ['_', '$', '.'])) = false := by
      rw [alphanumeric.ascii '(' (by decide)]
      decide
    have htake := takeWhile_all
      (fun c hc => alphanumeric.symbolChar (bareIdentifier_chars hbare hc)) hparen tail
    rw [if_pos hbare, hescape]
    split
    · rename_i heq
      cases heq
    · rename_i quoted heq
      have hrest := (Prod.mk.inj (Option.some.inj heq)).2
      cases name with
      | nil => cases hbare
      | cons c name =>
        refine absurd (List.cons.inj hrest).1 ?_
        exact (symbolChar_verbatim (bareIdentifier_chars hbare List.mem_cons_self)).2.1
    · rename_i heq
      rw [← (Prod.mk.inj (Option.some.inj heq)).2]
      exact congrArg some htake
  · rw [if_neg hbare, quoted, List.cons_append, List.cons_append, List.append_assoc,
      List.singleton_append]
    simp only [splitOnce_char (quote_notMem_escape name)]
    rfl

end IreeRocket.Compiler
