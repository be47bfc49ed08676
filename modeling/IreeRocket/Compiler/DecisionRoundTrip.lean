import IreeRocket.Compiler.ReadModule

/-!
# The records of a printed module

Scanning what was printed gives every record in its place. The records are the ones printed exactly
where no string needed an escape that is not undone: `unquote` undoes the escape of a backslash,
and the readings of a location and of a symbol undo none.
-/

namespace IreeRocket.Compiler

open ScannedText

/-! ### Printed lines -/

/-- Printable characters only. -/
def Printed (text : Text) : Prop := ∀ c ∈ text, printable c = true

theorem Printed.append {left right : Text} (hleft : Printed left) (hright : Printed right) :
    Printed (left ++ right) := fun c hc => (List.mem_append.mp hc).elim (hleft c) (hright c)

theorem Printed.oneLine {text : Text} (h : Printed text) : OneLine text :=
  ⟨fun hc => absurd (h _ hc) (by decide), fun hc => absurd (h _ hc) (by decide)⟩

theorem Printed.quoted (text : Text) : Printed (quoted text) := by
  have hquote : Printed ['"'] := by unfold Printed; decide
  exact (hquote.append fun c hc => (escape_chars hc).1).append hquote

theorem Printed.nat (n : Nat) : Printed (toString n).toList := fun c hc => by
  have hdigits : ∀ d ∈ "0123456789".toList, printable d = true := by decide
  exact hdigits c (digit_mem (Delimited.natChars hc))

theorem Printed.int (n : Int) : Printed (toString n).toList := fun c hc => by
  have hdigits : ∀ d ∈ "0123456789".toList, printable d = true := by decide
  rcases Delimited.intChars hc with h | rfl
  · exact hdigits c (digit_mem h)
  · decide

theorem Printed.aliasName (n : Nat) : Printed (aliasName n) := by
  have hloc : Printed "#loc".toList := by unfold Printed; decide
  cases n with
  | zero => exact hloc
  | succ n => exact hloc.append (.nat _)

theorem Printed.location (location : Location) : Printed location.print := by
  cases location with
  | unknown => unfold Printed; decide
  | file name line column =>
    have hopen : Printed "loc(".toList := by unfold Printed; decide
    have hcolon : Printed [':'] := by unfold Printed; decide
    have hclose : Printed [')'] := by unfold Printed; decide
    exact (((hopen.append (.quoted name)).append (hcolon.append (.nat line))).append
      (hcolon.append (.nat column))).append hclose

theorem Printed.intercalate {parts : List Text} (h : ∀ part ∈ parts, Printed part) :
    Printed (", ".toList.intercalate parts) := by
  have hcomma : Printed ", ".toList := by unfold Printed; decide
  induction parts with
  | nil => exact fun c hc => absurd hc List.not_mem_nil
  | cons first parts ih =>
    have hfirst := h first List.mem_cons_self
    have hparts := ih fun part hp => h part (List.mem_cons_of_mem _ hp)
    cases parts with
    | nil =>
      rw [List.intercalate_singleton]
      exact hfirst
    | cons second parts =>
      rw [List.intercalate_cons_cons]
      exact (hfirst.append hcomma).append hparts

theorem Printed.entry {r : Record} {entry : String × Text} (h : entry ∈ r.entries) :
    Printed (printEntry entry) := by
  have hkeys : ∀ key ∈ keys, Printed (key.toList ++ " = ".toList) := by unfold Printed; decide
  have hinteger : ∀ n, Printed (printInteger n) := fun n => by
    have hend : Printed " : i64".toList := by unfold Printed; decide
    exact Printed.append (.int n.toInt) hend
  have hloc : Printed ((r.aliasIndex.map Compiler.aliasName).getD r.location.print) := by
    cases r.aliasIndex with
    | none => exact .location r.location
    | some n => exact .aliasName n
  have hall : ∀ value ∈ r.entries.map Prod.snd, Printed value := by
    rw [Record.entries]
    simp only [List.map_cons, List.map_nil, List.forall_mem_cons]
    exact ⟨hinteger _, .quoted _, .quoted _, hinteger _, .quoted _, .quoted _, .quoted _, hloc,
      .quoted _, .quoted _, .quoted _, List.forall_mem_nil _⟩
  rw [printEntry, ← List.append_assoc]
  exact (hkeys _ (Record.key_mem h)).append (hall _ (List.mem_map_of_mem h))

theorem Printed.record (r : Record) : Printed r.print := by
  have hopen : Printed ['\x7b'] := by unfold Printed; decide
  have hclose : Printed ['\x7d'] := by unfold Printed; decide
  have hbody : Printed r.body := .intercalate fun text ht => by
    obtain ⟨entry, he, rfl⟩ := List.mem_map.mp ht
    exact .entry he
  exact hopen.append (hbody.append hclose)

theorem Printed.symbol (name : Text) : Printed (printSymbol name) := by
  have hat : Printed ['@'] := by unfold Printed; decide
  by_cases hbare : bareIdentifier name = true
  · rw [printSymbol, if_pos hbare]
    exact hat.append fun c hc => (symbolChar_verbatim (bareIdentifier_chars hbare hc)).1
  · rw [printSymbol, if_neg hbare]
    exact hat.append (.quoted name)

/-- **Every item is one line.** -/
theorem Item.oneLine (item : Item) : OneLine item.print := by
  cases item with
  | named n location =>
    have hequal : Printed " = ".toList := by unfold Printed; decide
    exact ((Printed.aliasName n).append (hequal.append (.location location))).oneLine
  | function f =>
    have hmarker : Printed decisionsAttr := by unfold Printed; decide
    have hopen : Printed ['['] := by unfold Printed; decide
    have hclose : Printed [']'] := by unfold Printed; decide
    have harray : Printed (printArray f.records) := .intercalate fun text ht => by
      obtain ⟨r, -, rfl⟩ := List.mem_map.mp ht
      exact .record r
    exact f.openingLine.append ((Printed.symbol f.name).oneLine.append (f.signatureLine.append
      (hmarker.oneLine.append (hopen.oneLine.append (harray.oneLine.append
        (hclose.oneLine.append f.closingLine))))))
  | other line => exact line.line

/-! ### The aliases -/

/-- What an item adds to the map of the aliases. -/
def Item.aliasEntry : Item → Option (Text × Text)
  | .named n location => some (aliasName n, location.read)
  | _ => none

theorem Item.locationAlias_print (item : Item) : locationAlias item.print = item.aliasEntry := by
  cases item with
  | named n location => exact locationAlias_named n location
  | function f => exact locationAlias_function f
  | other line => exact line.unaliased

theorem PrintedModule.lines_print (m : PrintedModule) :
    lines m.print = m.items.map Item.print := by
  have h : m.print = (m.items.map Item.print).flatMap (· ++ ['\n']) := by
    rw [List.flatMap_map]
    rfl
  rw [h]
  refine lines_flatMap fun text ht => ?_
  obtain ⟨item, -, rfl⟩ := List.mem_map.mp ht
  exact item.oneLine

theorem PrintedModule.aliases_print (m : PrintedModule) :
    locationAliases m.print = (m.items.filterMap Item.aliasEntry).reverse := by
  rw [locationAliases, m.lines_print, List.filterMap_map]
  exact congrArg List.reverse (List.filterMap_congr fun item _ => item.locationAlias_print)

theorem aliasName_injective {n k : Nat} (h : aliasName n = aliasName k) : n = k := by
  have hlong : ∀ j : Nat, aliasName 0 ≠ aliasName (j + 1) := fun j heq => by
    have hnil : "#loc".toList ++ [] = "#loc".toList ++ (toString (j + 1)).toList := heq
    exact natDigits_ne_nil (j + 1) (List.append_cancel_left hnil).symm
  cases n with
  | zero =>
    cases k with
    | zero => rfl
    | succ k => exact absurd h (hlong k)
  | succ n =>
    cases k with
    | zero => exact absurd h.symm (hlong n)
    | succ k => exact Delimited.nat_inj (List.append_cancel_left h)

/-- **An alias is what it was defined as.** -/
theorem PrintedModule.lookup_alias (m : PrintedModule) {n : Nat} {location : Location}
    (h : Item.named n location ∈ m.items) :
    (locationAliases m.print).lookup (aliasName n) = some location.read := by
  obtain ⟨before, after, hitems⟩ := List.append_of_mem h
  have hdistinct := m.distinct
  rw [hitems, List.filterMap_append, List.filterMap_cons] at hdistinct
  have hafter : n ∉ after.filterMap Item.aliasIndex :=
    (List.nodup_cons.mp (List.nodup_append.mp hdistinct).2.1).1
  rw [m.aliases_print, hitems, List.filterMap_append, List.filterMap_cons, List.lookup_eq_some_iff]
  refine ⟨(after.filterMap Item.aliasEntry).reverse, (before.filterMap Item.aliasEntry).reverse,
    ?_, ?_⟩
  · simp [Item.aliasEntry]
  · intro entry he
    obtain ⟨item, hitem, hentry⟩ := List.mem_filterMap.mp (List.mem_reverse.mp he)
    cases item with
    | named k other =>
      obtain rfl := Option.some.inj hentry
      refine bne_iff_ne.mpr fun heq => hafter (List.mem_filterMap.mpr ⟨_, hitem, ?_⟩)
      exact congrArg some (aliasName_injective heq).symm
    | function f => cases hentry
    | other line => cases hentry

/-! ### The records -/

/-- What is read of an item. -/
def Item.read : Item → List Decision
  | .function f => f.records.map (Record.read f.name)
  | _ => []

theorem PrintedModule.scan_print (alphanumeric : Alphanumeric) (m : PrintedModule) :
    scan alphanumeric m.print = m.items.flatMap fun item =>
      lineDecisions alphanumeric (locationAliases m.print) item.print := by
  rw [scan, m.lines_print, List.flatMap_map]

theorem PrintedModule.lineDecisions_function (alphanumeric : Alphanumeric) (m : PrintedModule)
    {f : PlannedFunction} (hf : Item.function f ∈ m.items) (hname : ¬ decisionsAttr <:+: f.name) :
    lineDecisions alphanumeric (locationAliases m.print) f.print =
      f.records.map (Record.read f.name) :=
  Compiler.lineDecisions_function alphanumeric f hname
    fun r hr n hn => m.lookup_alias (m.resolved f hf r hr n hn)

theorem lineDecisions_eq_nil_iff (alphanumeric : Alphanumeric) (aliases : List (Text × Text))
    (line : Text) : lineDecisions alphanumeric aliases line = [] ↔
      ((plannedGroups line).map Prod.snd).getD [] = [] := by
  rw [lineDecisions]
  cases plannedGroups line with
  | none => exact iff_of_true rfl rfl
  | some found => exact List.map_eq_nil_iff

/-- A line that defines an alias adds what is found in its file name. -/
theorem lineDecisions_named (alphanumeric : Alphanumeric) (aliases : List (Text × Text)) (n : Nat)
    (location : Location) :
    lineDecisions alphanumeric aliases (Item.named n location).print = [] ↔
      ∀ name line column, location = .file name line column → strayDictionaries name = [] := by
  have hunmarked : ∀ text : Text, 'p' ∉ text → ¬ decisionsAttr <:+: text :=
    fun text htext h => htext (h.subset (by decide))
  have hname : 'p' ∉ aliasName n := by
    cases n with
    | zero => decide
    | succ n =>
      rw [aliasName, List.mem_append, not_or]
      exact ⟨by decide, Delimited.notMem_nat (by decide) _⟩
  rw [lineDecisions_eq_nil_iff, Item.print]
  cases location with
  | unknown =>
    have hline : 'p' ∉ aliasName n ++ (" = ".toList ++ Location.unknown.print) := by
      rw [List.mem_append, not_or]
      exact ⟨hname, by decide⟩
    rw [plannedGroups, splitOnce_eq_none (hunmarked _ hline)]
    exact iff_of_true rfl fun _ _ _ h => by cases h
  | file name line column =>
    have hstart : 'p' ∉ aliasName n ++ (" = ".toList ++ "loc(".toList) := by
      rw [List.mem_append, not_or]
      exact ⟨hname, by decide⟩
    have htail : ∀ c ∈ ['p', '"', '['], c ∉ locationTail line column := fun c hc => by
      have hnumber : ∀ d ∈ ['p', '"', '['], d.isDigit = false ∧ d ≠ ':' ∧ d ≠ ')' := by decide
      obtain ⟨hdigit, hcolon, hclose⟩ := hnumber c hc
      simp only [locationTail, List.mem_cons, List.mem_append, List.not_mem_nil, or_false, not_or]
      exact ⟨hcolon, ⟨Delimited.notMem_nat hdigit _, hcolon, Delimited.notMem_nat hdigit _⟩, hclose⟩
    have hgroups := plannedGroups_named name (hunmarked _ hstart)
      (htail '"' (by decide)) (htail '[' (by decide)) (hunmarked _ (htail 'p' (by decide)))
    rw [List.append_assoc, List.append_assoc, ← Location.print_file] at hgroups
    rw [hgroups]
    refine ⟨fun h name' line' column' heq => ?_, fun h => h name line column rfl⟩
    cases heq
    exact h

theorem lineDecisions_other (alphanumeric : Alphanumeric) (aliases : List (Text × Text))
    (line : OtherLine) : lineDecisions alphanumeric aliases (Item.other line).print = [] := by
  rw [lineDecisions_eq_nil_iff, plannedGroups, Item.print, splitOnce_eq_none line.unmarked]
  rfl

/-! ### The round trip -/

/-- The strings of a record that are read by `unquote`. -/
def Record.strings (r : Record) : List Text :=
  [r.kind, r.layout, r.shape, r.precision, r.decision, r.status, r.limit, r.detail]

/-- When the scanner reads what was printed: the strings have no quote and no byte that is not
printable, the files and symbols no backslash either, no symbol holds the attribute's name, and no
file name of an alias holds an array of dictionaries under it. -/
structure PrintedModule.Scannable (m : PrintedModule) : Prop where
  strings : ∀ f, Item.function f ∈ m.items → ∀ r ∈ f.records, ∀ s ∈ r.strings, Plain s
  files : ∀ f, Item.function f ∈ m.items → ∀ r ∈ f.records, ∀ name line column,
    r.location = .file name line column → Verbatim name
  symbols : ∀ f, Item.function f ∈ m.items → Verbatim f.name ∧ ¬ decisionsAttr <:+: f.name
  aliases : ∀ n name line column, Item.named n (.file name line column) ∈ m.items →
    strayDictionaries name = []

/-- One record is read as it was printed exactly where its texts are. -/
theorem Record.read_eq_iff (function : Text) (r : Record) :
    r.read function = r.toDecision function ↔ Verbatim function ∧ (∀ s ∈ r.strings, Plain s) ∧
      ∀ name line column, r.location = .file name line column → Verbatim name := by
  rw [← escape_eq_iff, ← r.location.read_eq_iff]
  simp only [Record.read, Record.toDecision, Record.strings, Decision.mk.injEq, List.forall_mem_cons,
    unquotedText_eq_iff, true_and, List.not_mem_nil, false_imp_iff, implies_true, and_true]
  tauto

/-- **What is read of a module**, whatever its strings: every record, in order. -/
theorem PrintedModule.scan_read (alphanumeric : Alphanumeric) {m : PrintedModule}
    (hsymbols : ∀ f, Item.function f ∈ m.items → ¬ decisionsAttr <:+: f.name)
    (haliases : ∀ n name line column, Item.named n (.file name line column) ∈ m.items →
      strayDictionaries name = []) :
    scan alphanumeric m.print = m.items.flatMap Item.read := by
  rw [m.scan_print]
  refine List.flatMap_congr fun item hitem => ?_
  cases item with
  | named n location =>
    refine (lineDecisions_named alphanumeric _ n location).mpr fun name line column heq => ?_
    exact haliases n name line column (heq ▸ hitem)
  | function f => exact m.lineDecisions_function alphanumeric hitem (hsymbols f hitem)
  | other line => exact lineDecisions_other alphanumeric _ line

theorem PrintedModule.scan_of_scannable (alphanumeric : Alphanumeric) {m : PrintedModule}
    (h : m.Scannable) : scan alphanumeric m.print = m.decisions := by
  rw [scan_read alphanumeric (fun f hf => (h.symbols f hf).2) h.aliases, PrintedModule.decisions]
  refine List.flatMap_congr fun item hitem => ?_
  cases item with
  | named n location => rfl
  | function f =>
    refine List.map_congr_left fun r hr => (r.read_eq_iff f.name).mpr ?_
    exact ⟨(h.symbols f hitem).1, h.strings f hitem r hr, h.files f hitem r hr⟩
  | other line => rfl

/-- A symbol that holds the attribute's name is never read. -/
theorem PrintedModule.unmarked_of_scan {alphanumeric : Alphanumeric} {m : PrintedModule}
    (h : scan alphanumeric m.print = m.decisions) {f : PlannedFunction}
    (hf : Item.function f ∈ m.items) : ¬ decisionsAttr <:+: f.name := by
  obtain ⟨r, hr⟩ := List.exists_mem_of_ne_nil _ f.planned
  have hmem : r.toDecision f.name ∈ m.decisions :=
    List.mem_flatMap.mpr ⟨_, hf, List.mem_map_of_mem hr⟩
  rw [← h, m.scan_print] at hmem
  obtain ⟨item, -, hline⟩ := List.mem_flatMap.mp hmem
  exact lineDecisions_unmarked hline

theorem PrintedModule.scannable_of_scan {alphanumeric : Alphanumeric} {m : PrintedModule}
    (h : scan alphanumeric m.print = m.decisions) : m.Scannable := by
  have hmarker : ∀ f, Item.function f ∈ m.items → ¬ decisionsAttr <:+: f.name :=
    fun f hf => unmarked_of_scan h hf
  -- no line gives fewer decisions than it should, so each gives just those
  have hitems : ∀ item ∈ m.items,
      lineDecisions alphanumeric (locationAliases m.print) item.print = item.decisions := by
    refine (flatMap_eq_iff fun item hitem => ?_).mp (m.scan_print alphanumeric ▸ h)
    cases item with
    | named n location => exact Nat.zero_le _
    | function f =>
      rw [Item.print, m.lineDecisions_function alphanumeric hitem (hmarker f hitem),
        Item.decisions, List.length_map, List.length_map]
    | other line => exact Nat.zero_le _
  have hrecords : ∀ f, Item.function f ∈ m.items → ∀ r ∈ f.records,
      r.read f.name = r.toDecision f.name := fun f hf => by
    have heq := hitems _ hf
    rw [Item.print, m.lineDecisions_function alphanumeric hf (hmarker f hf)] at heq
    exact List.map_inj_left.mp heq
  refine ⟨fun f hf r hr => ?_, fun f hf r hr => ?_, fun f hf => ⟨?_, hmarker f hf⟩,
    fun n name line column hitem => ?_⟩
  · exact ((r.read_eq_iff f.name).mp (hrecords f hf r hr)).2.1
  · exact ((r.read_eq_iff f.name).mp (hrecords f hf r hr)).2.2
  · obtain ⟨r, hr⟩ := List.exists_mem_of_ne_nil _ f.planned
    exact ((r.read_eq_iff f.name).mp (hrecords f hf r hr)).1
  · exact (lineDecisions_named alphanumeric _ n _).mp (hitems _ hitem) name line column rfl

/-- **The scan of a printed module gives its records, in order, exactly where it is scannable.** -/
theorem scan_print_iff (alphanumeric : Alphanumeric) (m : PrintedModule) :
    scan alphanumeric m.print = m.decisions ↔ m.Scannable :=
  ⟨m.scannable_of_scan, PrintedModule.scan_of_scannable alphanumeric⟩

/-! A detail that quotes a name is read with the two digits of each quote. -/

def asciiAlphanumeric : Alphanumeric := ⟨Char.isAlphanum, fun _ _ => rfl⟩

def quotingRecord : Record where
  kind := "matmul".toList
  layout := "row_major".toList
  shape := "197x768 x 768x768".toList
  precision := "fp16".toList
  decision := "cpu".toList
  status := "form".toList
  limit := "semantics".toList
  detail := "operand \"bias\" is not a constant".toList
  jobs := 0
  columns := 0
  location := .file "vit.mlir".toList 42 7
  aliasIndex := none

def quotingModule : PrintedModule where
  items := [.function
    { opening := "  util.func public ".toList
      name := "main".toList
      signature := "() attributes \x7b".toList
      records := [quotingRecord]
      closing := "\x7d \x7b".toList
      planned := List.cons_ne_nil _ _
      openingLine := by unfold OneLine; decide
      openingAt := by decide
      openingHash := by decide
      openingUnmarked := by decide
      signatureLine := by unfold OneLine; decide
      signatureParen := rfl
      signatureUnmarked := by decide
      closingLine := by unfold OneLine; decide }]
  distinct := List.nodup_nil
  resolved := by
    intro f hf r hr n hn
    obtain rfl := Item.function.inj (List.mem_singleton.mp hf)
    obtain rfl := List.mem_singleton.mp hr
    cases hn

theorem quoted_detail_misread :
    (scan asciiAlphanumeric quotingModule.print).map Decision.detail =
        ["operand 22bias22 is not a constant".toList] ∧
      scan asciiAlphanumeric quotingModule.print ≠ quotingModule.decisions := by
  have hread : scan asciiAlphanumeric quotingModule.print = [quotingRecord.read "main".toList] := by
    refine PrintedModule.scan_read asciiAlphanumeric (fun f hf => ?_) fun n name line column h => ?_
    · obtain rfl := Item.function.inj (List.mem_singleton.mp hf)
      decide
    · cases List.mem_singleton.mp h
  refine ⟨hread ▸ by decide, fun h => ?_⟩
  have hdetail := congrArg (List.map Decision.detail) (hread ▸ h)
  revert hdetail
  decide

end IreeRocket.Compiler
