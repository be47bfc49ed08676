import Mathlib.Data.List.Infix
import Mathlib.Tactic.Common

/-!
# Runs of a step function and versioned values

A system is a step function `step : σ → α → σ`; a run is a list of actions, and `after` is the state
it reaches. `Guarded ok` says that every action of a run meets `ok` in the state it is taken in.

The second half is about values that carry a version: a step either leaves a key's value and version
alone or moves the version up. Then a key has held at most one value at each version of a run, so
"the value at version `v`" (`Seen`) is well defined however the run is cut.
-/

namespace IreeRocket.Runs

section Runs

variable {σ α : Type*} (step : σ → α → σ)

/-- The state a run reaches. -/
def after (s : σ) (run : List α) : σ := run.foldl step s

/-- Every action of the run meets `ok` in the state it is taken in. -/
def Guarded (ok : σ → α → Prop) : σ → List α → Prop
  | _, [] => True
  | s, a :: run => ok s a ∧ Guarded ok (step s a) run

/-- Whether a run is guarded can be evaluated where the guard can. -/
instance Guarded.decidable (ok : σ → α → Prop) [∀ s a, Decidable (ok s a)] :
    ∀ (s : σ) (run : List α), Decidable (Guarded step ok s run)
  | _, [] => .isTrue trivial
  | s, a :: run =>
    have := Guarded.decidable ok (step s a) run
    inferInstanceAs (Decidable (ok s a ∧ Guarded step ok (step s a) run))

variable {step} {ok : σ → α → Prop} {s : σ} {run earlier later : List α} {a : α}

@[simp] theorem after_nil : after step s [] = s := rfl

@[simp] theorem after_cons : after step s (a :: run) = after step (step s a) run := rfl

theorem after_append : after step s (earlier ++ later) = after step (after step s earlier) later :=
  List.foldl_append

theorem after_concat : after step s (run ++ [a]) = step (after step s run) a := after_append

theorem guarded_append : Guarded step ok s (earlier ++ later) ↔
    Guarded step ok s earlier ∧ Guarded step ok (after step s earlier) later := by
  induction earlier generalizing s with
  | nil => simp [Guarded]
  | cons a earlier ih => simp [Guarded, ih, and_assoc]

theorem guarded_concat : Guarded step ok s (run ++ [a]) ↔
    Guarded step ok s run ∧ ok (after step s run) a := by
  simp [guarded_append, Guarded]

theorem Guarded.of_isPrefix (h : Guarded step ok s run) (hearlier : earlier <+: run) :
    Guarded step ok s earlier := by
  obtain ⟨later, rfl⟩ := hearlier
  exact (guarded_append.mp h).1

theorem Guarded.mono {ok' : σ → α → Prop} (hmono : ∀ s a, ok s a → ok' s a)
    (h : Guarded step ok s run) : Guarded step ok' s run := by
  induction run generalizing s with
  | nil => trivial
  | cons a run ih => exact ⟨hmono s a h.1, ih h.2⟩

/-- **The invariant rule.** What holds of the start and is kept by every guarded step holds of the
state a guarded run reaches. -/
theorem invariant {Inv : σ → Prop} (hstep : ∀ s a, Inv s → ok s a → Inv (step s a)) (hs : Inv s)
    (h : Guarded step ok s run) : Inv (after step s run) := by
  induction run generalizing s with
  | nil => exact hs
  | cons a run ih => exact ih (hstep s a hs h.1) h.2

end Runs

section Versions

variable {σ α κ ν : Type*} (step : σ → α → σ) (version : σ → κ → Nat) (value : σ → κ → ν)

/-- A guarded step leaves a key's value and version alone or moves the version up. -/
def Versioned (ok : σ → α → Prop) : Prop :=
  ∀ s a, ok s a → ∀ key, (version (step s a) key = version s key ∧
    value (step s a) key = value s key) ∨ version s key < version (step s a) key

/-- Somewhere in the run the key held the value at the version. -/
def Seen (s : σ) (run : List α) (key : κ) (v : Nat) (x : ν) : Prop :=
  ∃ earlier, earlier <+: run ∧ version (after step s earlier) key = v ∧
    value (after step s earlier) key = x

variable {step version value} {ok : σ → α → Prop} {s : σ} {run earlier : List α} {a : α} {key : κ}
  {v : Nat} {x y : ν}

theorem Versioned.mono (hv : Versioned step version value ok) (h : Guarded step ok s run) (key : κ) :
    version s key ≤ version (after step s run) key := by
  induction run generalizing s with
  | nil => exact le_rfl
  | cons a run ih =>
    have hrest := ih h.2
    rcases hv s a h.1 key with ⟨heq, -⟩ | hlt
    · rwa [heq] at hrest
    · exact hlt.le.trans hrest

/-- Between two states at one version the value has not changed. -/
theorem Versioned.value_eq (hv : Versioned step version value ok) (h : Guarded step ok s run)
    (heq : version (after step s run) key = version s key) :
    value (after step s run) key = value s key := by
  induction run generalizing s with
  | nil => rfl
  | cons a run ih =>
    have hrest := hv.mono h.2 key
    rw [after_cons] at heq ⊢
    rcases hv s a h.1 key with ⟨hversion, hvalue⟩ | hlt
    · rw [← hvalue]
      exact ih h.2 (heq.trans hversion.symm)
    · omega

theorem Versioned.value_eq_of_isPrefix (hv : Versioned step version value ok)
    (h : Guarded step ok s run) (hearlier : earlier <+: run)
    (heq : version (after step s run) key = version (after step s earlier) key) :
    value (after step s run) key = value (after step s earlier) key := by
  obtain ⟨later, rfl⟩ := hearlier
  rw [after_append] at heq ⊢
  exact hv.value_eq (guarded_append.mp h).2 heq

theorem Seen.le (hv : Versioned step version value ok) (h : Guarded step ok s run)
    (hseen : Seen step version value s run key v x) : v ≤ version (after step s run) key := by
  obtain ⟨earlier, ⟨later, rfl⟩, rfl, -⟩ := hseen
  rw [after_append]
  exact hv.mono (guarded_append.mp h).2 key

/-- **A key has held one value at each version.** -/
theorem Seen.unique (hv : Versioned step version value ok) (h : Guarded step ok s run)
    (hx : Seen step version value s run key v x) (hy : Seen step version value s run key v y) :
    x = y := by
  obtain ⟨first, hfirst, hversion, rfl⟩ := hx
  obtain ⟨second, hsecond, hversion', rfl⟩ := hy
  rcases List.prefix_or_prefix_of_prefix hfirst hsecond with hle | hle
  · exact (hv.value_eq_of_isPrefix (h.of_isPrefix hsecond) hle (hversion'.trans hversion.symm)).symm
  · exact hv.value_eq_of_isPrefix (h.of_isPrefix hfirst) hle (hversion.trans hversion'.symm)

end Versions

end IreeRocket.Runs
