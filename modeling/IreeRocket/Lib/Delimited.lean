import Std.Data.String.ToInt
import Mathlib.Data.List.Basic
import Mathlib.Tactic.Common

/-!
# Delimited text

Text put together from parts with a delimiter between them determines its parts, where they do not
contain the delimiter. Only the first part may: reading from the right, the rest is found before it.
Decimal numbers contain digits and a minus sign only.
-/

namespace IreeRocket.Delimited

variable {α : Type} {c : α}

/-- Text is split at the first delimiter. -/
theorem split_first {x y s t : List α} (hx : c ∉ x) (hy : c ∉ y) (h : x ++ c :: s = y ++ c :: t) :
    x = y ∧ s = t := by
  induction x generalizing y with
  | nil =>
    cases y with
    | nil => exact ⟨rfl, (List.cons.inj h).2⟩
    | cons b y =>
      obtain ⟨rfl, -⟩ := List.cons.inj h
      exact absurd List.mem_cons_self hy
  | cons a x ih =>
    cases y with
    | nil =>
      obtain ⟨rfl, -⟩ := List.cons.inj h
      exact absurd List.mem_cons_self hx
    | cons b y =>
      obtain ⟨rfl, hrest⟩ := List.cons.inj h
      obtain ⟨rfl, rfl⟩ := ih (fun hc => hx (List.mem_cons_of_mem _ hc))
        (fun hc => hy (List.mem_cons_of_mem _ hc)) hrest
      exact ⟨rfl, rfl⟩

/-- Text is split at the last delimiter. -/
theorem split_last {x y s t : List α} (hs : c ∉ s) (ht : c ∉ t) (h : x ++ c :: s = y ++ c :: t) :
    x = y ∧ s = t := by
  have h := congrArg List.reverse h
  simp only [List.reverse_append, List.reverse_cons, List.append_assoc, List.singleton_append] at h
  obtain ⟨hst, hxy⟩ := split_first (by rwa [List.mem_reverse]) (by rwa [List.mem_reverse]) h
  exact ⟨List.reverse_injective hxy, List.reverse_injective hst⟩

/-- `first`, then the parts with a delimiter before each. The parts are listed from the last. -/
def joined (c : α) (first : List α) : List (List α) → List α
  | [] => first
  | part :: before => joined c first before ++ c :: part

/-- The last part is determined, and the text before it. -/
theorem joined_cons {first first' part part' : List α} {before before' : List (List α)}
    (hpart : c ∉ part) (hpart' : c ∉ part')
    (h : joined c first (part :: before) = joined c first' (part' :: before')) :
    part = part' ∧ joined c first before = joined c first' before' :=
  (split_last hpart hpart' h).symm

/-! ### Numbers -/

theorem natChars {n : Nat} {d : Char} (h : d ∈ (toString n).toList) : d.isDigit = true := by
  rw [show (toString n).toList = Nat.toDigits 10 n from Nat.toList_repr] at h
  exact Nat.isDigit_of_mem_toDigits (by decide) (by decide) h

theorem intChars {i : Int} {d : Char} (h : d ∈ (toString i).toList) : d.isDigit = true ∨ d = '-' := by
  rw [show toString i = Int.repr i from rfl, Int.repr_eq_if] at h
  split_ifs at h with hi
  · exact .inl (natChars h)
  · rw [String.toList_append, List.mem_append] at h
    rcases h with h | h
    · exact .inr (List.mem_singleton.mp h)
    · exact .inl (natChars h)

/-- What is neither a digit nor a minus sign is in no number. -/
theorem notMem_int {d : Char} (hdigit : d.isDigit = false) (hminus : d ≠ '-') (i : Int) :
    d ∉ (toString i).toList := by
  intro h
  rcases intChars h with h | h
  · rw [hdigit] at h
    cases h
  · exact hminus h

theorem notMem_nat {d : Char} (hdigit : d.isDigit = false) (n : Nat) : d ∉ (toString n).toList := by
  intro h
  rw [natChars h] at hdigit
  cases hdigit

theorem int_inj {i j : Int} (h : (toString i).toList = (toString j).toList) : i = j :=
  Int.repr_injective (String.toList_injective h)

theorem nat_inj {n k : Nat} (h : (toString n).toList = (toString k).toList) : n = k :=
  Nat.repr_injective (String.toList_injective h)

end IreeRocket.Delimited
