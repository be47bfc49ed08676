import Mathlib.Data.List.DropRight
import Mathlib.Data.List.Infix
import Mathlib.Tactic.Common

/-!
# Scanned text

Reading text from the left: what stands before the first occurrence of a pattern and after it, the
lines, the text without its outer blanks. What a scan finds in text put together from parts, where
a character between the parts is not in the pattern.
-/

namespace IreeRocket.ScannedText

variable {α β : Type}

/-- Of the characters of a text, for all characters are many. -/
instance (priority := 1100) decidableForallChars (text : List Char) (p : Char → Prop) [DecidablePred p] :
    Decidable (∀ c ∈ text, p c) := List.decidableBAll p text

/-! ### The first occurrence -/

/-- A prefix of two texts put together ends in the first or goes through it. -/
theorem prefix_append_cases {pattern left right : List α} (h : pattern <+: left ++ right) :
    pattern <+: left ∨ ∃ tail, pattern = left ++ tail ∧ tail <+: right := by
  rcases List.prefix_or_prefix_of_prefix h (List.prefix_append left right) with hleft | hleft
  · exact .inl hleft
  · obtain ⟨tail, rfl⟩ := hleft
    exact .inr ⟨tail, rfl, (List.prefix_append_right_inj left).mp h⟩

section Occurrence

variable [DecidableEq α]

/-- The text before the first occurrence of a pattern, and the text after it. -/
def splitOnce (pattern : List α) : List α → Option (List α × List α)
  | [] => if pattern = [] then some ([], []) else none
  | c :: rest =>
    if pattern <+: c :: rest then some ([], (c :: rest).drop pattern.length)
    else (splitOnce pattern rest).map (Prod.map (c :: ·) id)

theorem splitOnce_nil {pattern : List α} (hpattern : pattern ≠ []) :
    splitOnce pattern [] = none := if_neg hpattern

theorem splitOnce_cons {pattern : List α} {c : α} {rest : List α} (h : ¬ pattern <+: c :: rest) :
    splitOnce pattern (c :: rest) =
      (splitOnce pattern rest).map (Prod.map (c :: ·) id) := if_neg h

/-- A pattern at the start is found there. -/
theorem splitOnce_pattern (pattern rest : List α) :
    splitOnce pattern (pattern ++ rest) = some ([], rest) := by
  cases h : pattern ++ rest with
  | nil =>
    obtain ⟨rfl, rfl⟩ := List.append_eq_nil_iff.mp h
    rfl
  | cons c text =>
    rw [splitOnce, if_pos (h ▸ List.prefix_append pattern rest), ← h, List.drop_left]

theorem splitOnce_eq_none {pattern text : List α} (h : ¬ pattern <:+: text) :
    splitOnce pattern text = none := by
  induction text with
  | nil => exact splitOnce_nil fun hnil => h (hnil ▸ List.nil_infix)
  | cons c rest ih =>
    have hcons := (not_congr List.infix_cons_iff).mp h
    rw [splitOnce_cons fun hp => hcons (.inl hp), ih fun hp => hcons (.inr hp)]
    rfl

/-- The text is put back together from the parts, and the part before holds no occurrence. -/
theorem splitOnce_some {pattern text before after : List α} (hpattern : pattern ≠ [])
    (h : splitOnce pattern text = some (before, after)) :
    text = before ++ pattern ++ after ∧ ¬ pattern <:+: before := by
  induction text generalizing before with
  | nil =>
    rw [splitOnce_nil hpattern] at h
    cases h
  | cons c rest ih =>
    by_cases hp : pattern <+: c :: rest
    · rw [splitOnce, if_pos hp] at h
      obtain ⟨tail, htail⟩ := hp
      obtain ⟨rfl, rfl⟩ := Prod.mk.inj (Option.some.inj h)
      refine ⟨?_, fun hin => hpattern (List.infix_nil.mp hin)⟩
      rw [← htail, List.drop_left, List.nil_append]
    · rw [splitOnce_cons hp] at h
      obtain ⟨⟨before', after'⟩, hrest, hparts⟩ := Option.map_eq_some_iff.mp h
      obtain ⟨rfl, rfl⟩ := Prod.mk.inj hparts
      obtain ⟨rfl, hbefore⟩ := ih hrest
      refine ⟨rfl, fun hin => ?_⟩
      rcases List.infix_cons_iff.mp hin with hin | hin
      · exact hp (hin.trans ⟨pattern ++ after', by simp⟩)
      · exact hbefore hin

/-- Where a character outside the pattern follows, no occurrence begins before it and ends after
it. -/
theorem splitOnce_append_cons {pattern : List α} (hpattern : pattern ≠ []) {c : α} (hc : c ∉ pattern)
    (left right : List α) :
    splitOnce pattern (left ++ c :: right) =
      match splitOnce pattern left with
      | some (before, after) => some (before, after ++ c :: right)
      | none => (splitOnce pattern right).map (Prod.map (left ++ c :: ·) id) := by
  induction left with
  | nil =>
    have hp : ¬ pattern <+: c :: right := fun hp => by
      cases pattern with
      | nil => exact hpattern rfl
      | cons d tail => exact hc ((List.cons_prefix_cons.mp hp).1 ▸ List.mem_cons_self)
    rw [List.nil_append, splitOnce_cons hp, splitOnce_nil hpattern]
    rfl
  | cons d left ih =>
    have hiff : pattern <+: d :: left ++ c :: right ↔ pattern <+: d :: left := by
      refine ⟨fun hp => ?_, fun hp => hp.trans (List.prefix_append _ _)⟩
      rcases prefix_append_cases hp with hp | ⟨tail, hpat, htail⟩
      · exact hp
      · cases tail with
        | nil => exact ⟨[], by simpa using hpat⟩
        | cons e tail =>
          refine absurd ?_ hc
          rw [hpat, ← (List.cons_prefix_cons.mp htail).1]
          simp
    rw [List.cons_append] at hiff ⊢
    by_cases hp : pattern <+: d :: left
    · rw [splitOnce, if_pos (hiff.mpr hp), splitOnce, if_pos hp, ← List.cons_append,
        List.drop_append_of_le_length hp.length_le]
    · rw [splitOnce_cons fun h => hp (hiff.mp h), ih, splitOnce_cons hp]
      cases splitOnce pattern left with
      | some parts => rfl
      | none => cases splitOnce pattern right <;> rfl

/-- A pattern whose first character stands nowhere else in it does not overlap itself: after text
without an occurrence it is found where it stands. -/
theorem splitOnce_append_pattern {c : α} {tail : List α} (hc : c ∉ tail) {left : List α}
    (hleft : ¬ c :: tail <:+: left) (rest : List α) :
    splitOnce (c :: tail) (left ++ (c :: tail ++ rest)) = some (left, rest) := by
  induction left with
  | nil => exact splitOnce_pattern _ _
  | cons d left ih =>
    have hcons := (not_congr List.infix_cons_iff).mp hleft
    have hp : ¬ c :: tail <+: d :: left ++ (c :: tail ++ rest) := fun hp => by
      rcases prefix_append_cases hp with hp | ⟨t, hpat, ht⟩
      · exact hcons (.inl hp)
      · cases t with
        | nil => exact hcons (.inl ⟨[], by simpa using hpat⟩)
        | cons e t =>
          obtain ⟨rfl, -⟩ := List.cons_prefix_cons.mp ht
          refine hc ?_
          rw [(List.cons.inj hpat).2]
          simp
    rw [List.cons_append] at hp ⊢
    rw [splitOnce_cons hp, ih fun h => hcons (.inr h)]
    rfl

/-- A pattern that begins with two different characters, after text without the second. -/
theorem splitOnce_append_pair {a b : α} (hab : a ≠ b) (tail : List α) {left : List α}
    (hleft : b ∉ left) (rest : List α) :
    splitOnce (a :: b :: tail) (left ++ (a :: b :: tail ++ rest)) = some (left, rest) := by
  induction left with
  | nil => exact splitOnce_pattern _ _
  | cons d left ih =>
    rw [List.mem_cons, not_or] at hleft
    have hp : ¬ a :: b :: tail <+: d :: (left ++ (a :: b :: tail ++ rest)) := fun hp => by
      have htail := (List.cons_prefix_cons.mp hp).2
      cases left with
      | nil => exact hab (List.cons_prefix_cons.mp htail).1.symm
      | cons e left => exact hleft.2 ((List.cons_prefix_cons.mp htail).1 ▸ List.mem_cons_self)
    rw [List.cons_append, splitOnce_cons hp, ih hleft.2]
    rfl

/-- One character is found where it first stands. -/
theorem splitOnce_char {c : α} {left : List α} (hleft : c ∉ left) (rest : List α) :
    splitOnce [c] (left ++ c :: rest) = some (left, rest) :=
  splitOnce_append_pattern List.not_mem_nil
    (fun h => hleft (h.subset List.mem_cons_self)) rest

end Occurrence

/-! ### Lines -/

/-- A character put before the first line. -/
def beforeLine (c : Char) : List (List Char) → List (List Char)
  | [] => [[c]]
  | line :: lines => (c :: line) :: lines

/-- The lines of a text, without the line feeds or the carriage returns before them. Text after the
last line feed is a line if there is any. -/
def lines : List Char → List (List Char)
  | [] => []
  | '\n' :: rest => [] :: lines rest
  | '\r' :: '\n' :: rest => [] :: lines rest
  | c :: rest => beforeLine c (lines rest)

/-- No line feed and no carriage return. -/
def OneLine (text : List Char) : Prop := '\n' ∉ text ∧ '\r' ∉ text

theorem lines_cons {c : Char} (hfeed : c ≠ '\n') (hreturn : c ≠ '\r') (rest : List Char) :
    lines (c :: rest) = beforeLine c (lines rest) := by
  rw [lines]
  · exact fun h => hfeed h
  · exact fun _ h _ => hreturn h

theorem lines_append {line : List Char} (h : OneLine line) (rest : List Char) :
    lines (line ++ '\n' :: rest) = line :: lines rest := by
  induction line with
  | nil => rw [List.nil_append, lines]
  | cons c line ih =>
    obtain ⟨hfeed, hreturn⟩ := h
    rw [List.mem_cons, not_or] at hfeed hreturn
    rw [List.cons_append, lines_cons (Ne.symm hfeed.1) (Ne.symm hreturn.1), ih ⟨hfeed.2, hreturn.2⟩]
    rfl

/-- **Lines written with a line feed after each are read back.** -/
theorem lines_flatMap {texts : List (List Char)} (h : ∀ text ∈ texts, OneLine text) :
    lines (texts.flatMap (· ++ ['\n'])) = texts := by
  induction texts with
  | nil => rfl
  | cons text texts ih =>
    rw [List.flatMap_cons, List.append_assoc, List.singleton_append,
      lines_append (h text List.mem_cons_self), ih fun t ht => h t (List.mem_cons_of_mem _ ht)]

theorem OneLine.append {left right : List Char} (hleft : OneLine left) (hright : OneLine right) :
    OneLine (left ++ right) := by
  simp only [OneLine, List.mem_append, not_or] at *
  exact ⟨⟨hleft.1, hright.1⟩, hleft.2, hright.2⟩

/-! ### Outer blanks -/

/-- The text without the blanks around it. -/
def trim (blank : Char → Bool) (text : List Char) : List Char :=
  (text.dropWhile blank).rdropWhile blank

/-- Text that begins and ends with no blank is left as it is. -/
theorem trim_eq_self {blank : Char → Bool} {text : List Char} (first last : Char)
    (hfirst : blank first = false) (hlast : blank last = false) (htext : text.head? = some first)
    (hend : text.getLast? = some last) : trim blank text = text := by
  cases text with
  | nil => cases htext
  | cons c rest =>
    obtain rfl : c = first := Option.some.inj htext
    rw [trim, List.dropWhile_cons_of_neg (by rw [hfirst]; exact Bool.false_ne_true),
      List.rdropWhile_eq_self_iff]
    intro hne
    rw [List.getLast?_eq_getLast_of_ne_nil hne] at hend
    rw [Option.some.inj hend, hlast]
    exact Bool.false_ne_true

theorem trim_cons {blank : Char → Bool} {c : Char} (hc : blank c = true) (text : List Char) :
    trim blank (c :: text) = trim blank text := by
  rw [trim, List.dropWhile_cons_of_pos hc, trim]

/-! ### Lists from a list, entry by entry -/

theorem length_flatMap_le {f g : α → List β} {l : List α}
    (h : ∀ a ∈ l, (g a).length ≤ (f a).length) : (l.flatMap g).length ≤ (l.flatMap f).length := by
  induction l with
  | nil => exact le_rfl
  | cons a l ih =>
    rw [List.flatMap_cons, List.flatMap_cons, List.length_append, List.length_append]
    exact Nat.add_le_add (h a List.mem_cons_self) (ih fun b hb => h b (List.mem_cons_of_mem _ hb))

/-- Two lists that the entries of one list give piece by piece, the one's pieces never longer, are
the same list only if every piece is. -/
theorem flatMap_eq_iff {f g : α → List β} {l : List α} (h : ∀ a ∈ l, (g a).length ≤ (f a).length) :
    l.flatMap f = l.flatMap g ↔ ∀ a ∈ l, f a = g a := by
  refine ⟨fun heq => ?_, fun heq => List.flatMap_congr heq⟩
  induction l with
  | nil => exact fun a ha => absurd ha List.not_mem_nil
  | cons a l ih =>
    have hhead := h a List.mem_cons_self
    have htail : ∀ b ∈ l, (g b).length ≤ (f b).length := fun b hb => h b (List.mem_cons_of_mem _ hb)
    have hrest := length_flatMap_le htail
    rw [List.flatMap_cons, List.flatMap_cons] at heq
    have hlength := congrArg List.length heq
    rw [List.length_append, List.length_append] at hlength
    obtain ⟨hfirst, hothers⟩ := List.append_inj heq (by omega)
    intro b hb
    rcases List.mem_cons.mp hb with rfl | hb
    · exact hfirst
    · exact ih htail hothers b hb

end IreeRocket.ScannedText
