import Mathlib.Algebra.Order.Floor.Div
import Mathlib.Tactic.Common
import Mathlib.Tactic.SplitIfs

/-!
# The planner's outcomes

A planning function of the source returns `Result<T, PlanError>`, and can also stop the thread with
a panic (a failed `assert!`, a division by zero). Both are modelled by `Planner`: an `Except` whose
error is a refusal or a panic. A refusal carries the source's stable code and the message that names
the offending values.

Arithmetic is on `Nat`. The release build wraps `u32` and `u64`, so an operation that can leave its
type is written `wrap32` or `wrap64`; an operation written plainly stays below `2 ^ 32` on every
shape the constructors build.
-/

namespace IreeRocket

/-- Why the planner refused. -/
inductive PlanErrorCode
  | invalidShape
  | unsupportedSemantics
  | hardwareLimit
  | capacityExceeded
  | unvalidatedConfiguration
  | internal
  deriving DecidableEq, Repr

/-- A planning refusal. -/
structure PlanError where
  code : PlanErrorCode
  message : String
  deriving DecidableEq, Repr

/-- How a planning function ends without a result. -/
inductive Stop
  | refused (error : PlanError)
  | panicked (message : String)
  deriving DecidableEq, Repr

abbrev Planner := Except Stop

/-- `refuse_unless!`: `if !cond { return Err(PlanError::new(code, message)) }`. -/
def refuseUnless (cond : Prop) [Decidable cond] (code : PlanErrorCode) (message : String) :
    Planner Unit :=
  if cond then .ok () else .error (.refused ⟨code, message⟩)

/-- `let Some(value) = option else { return Err(PlanError::new(code, message)) }`. -/
def someOr {α : Type} (option : Option α) (code : PlanErrorCode) (message : String) : Planner α :=
  match option with
  | some value => .ok value
  | none => .error (.refused ⟨code, message⟩)

/-- `option.ok_or(reason)?`. -/
def okOr {ε α : Type} (option : Option α) (reason : ε) : Except ε α :=
  match option with
  | some value => .ok value
  | none => .error reason

/-- `if !cond { return Err(reason) }`. -/
def unlessErr {ε : Type} (cond : Prop) [Decidable cond] (reason : ε) : Except ε Unit :=
  if cond then .ok () else .error reason

/-- `assert!`. -/
def assertThat (cond : Prop) [Decidable cond] (message : String) : Planner Unit :=
  if cond then .ok () else .error (.panicked message)

/-- The value of a `u32` operation in the release build. -/
def wrap32 (n : Nat) : Nat := n % 2 ^ 32

/-- The value of a `u64` operation in the release build. -/
def wrap64 (n : Nat) : Nat := n % 2 ^ 64

/-- `a / b`, which panics on a zero divisor. -/
def divide (a b : Nat) : Planner Nat := do
  assertThat (b ≠ 0) "attempt to divide by zero"
  return a / b

/-- `a.next_multiple_of(b)` for a nonzero `b`. -/
def nextMultipleOf (a b : Nat) : Nat := (a ⌈/⌉ b) * b

theorem wrap32_of_lt {n : Nat} (h : n < 2 ^ 32) : wrap32 n = n := Nat.mod_eq_of_lt h

theorem wrap32_lt (n : Nat) : wrap32 n < 2 ^ 32 := Nat.mod_lt _ (by decide)

theorem wrap64_of_lt {n : Nat} (h : n < 2 ^ 64) : wrap64 n = n := Nat.mod_eq_of_lt h

/-! ### Peeling a computation apart -/

theorem bind_ok {ε α β : Type} {x : Except ε α} {f : α → Except ε β} {b : β} :
    (x >>= f) = .ok b ↔ ∃ a, x = .ok a ∧ f a = .ok b := by
  cases x with
  | error e => simp [bind, Except.bind]
  | ok a => simp [bind, Except.bind]

theorem bind_unit_ok {ε β : Type} {x : Except ε Unit} {f : Unit → Except ε β} {b : β} :
    (x >>= f) = .ok b ↔ x = .ok () ∧ f () = .ok b := by
  rw [bind_ok]
  exact ⟨fun ⟨_, hx, hf⟩ => ⟨hx, hf⟩, fun ⟨hx, hf⟩ => ⟨(), hx, hf⟩⟩

theorem map_ok {ε α β : Type} {x : Except ε α} {f : α → β} {b : β} :
    (f <$> x) = .ok b ↔ ∃ a, x = .ok a ∧ f a = b := by
  cases x with
  | error e => simp [Functor.map, Except.map]
  | ok a => simp [Functor.map, Except.map]

theorem pure_ok {ε α : Type} {a b : α} : (pure a : Except ε α) = .ok b ↔ a = b := by
  simp [pure, Except.pure]

theorem okOr_ok {ε α : Type} {option : Option α} {reason : ε} {a : α} :
    okOr option reason = .ok a ↔ option = some a := by
  cases option <;> simp [okOr]

theorem unlessErr_ok {ε : Type} {cond : Prop} [Decidable cond] {reason : ε} {u : Unit} :
    unlessErr cond reason = .ok u ↔ cond := by
  unfold unlessErr
  split_ifs with h <;> simp [h]

theorem unlessErr_bind_pos {ε α : Type} {cond : Prop} [Decidable cond] {reason : ε} {x : Except ε α}
    (h : cond) : (do unlessErr cond reason; x) = x := by
  rw [unlessErr, if_pos h]
  rfl

theorem unlessErr_bind_neg {ε α : Type} {cond : Prop} [Decidable cond] {reason : ε} {x : Except ε α}
    (h : ¬ cond) : (do unlessErr cond reason; x) = .error reason := by
  rw [unlessErr, if_neg h]
  rfl

/-- A traversal succeeds where every member does. -/
theorem mapM_isOk {ε α β : Type} {f : α → Except ε β} {l : List α} :
    (∃ out, l.mapM f = .ok out) ↔ ∀ a ∈ l, ∃ b, f a = .ok b := by
  induction l with
  | nil => simp [pure_ok]
  | cons a l ih =>
    simp only [List.mapM_cons, bind_ok, pure_ok, List.forall_mem_cons, ← ih]
    constructor
    · rintro ⟨out, b, hb, bs, hbs, -⟩
      exact ⟨⟨b, hb⟩, bs, hbs⟩
    · rintro ⟨⟨b, hb⟩, bs, hbs⟩
      exact ⟨_, b, hb, bs, hbs, rfl⟩

/-- A traversal gives each member's value in its place. -/
theorem mapM_some_iff {α β : Type} {f : α → Option β} {l : List α} {out : List β} :
    l.mapM f = some out ↔ l.map f = out.map some := by
  induction l generalizing out with
  | nil =>
    cases out with
    | nil => exact iff_of_true rfl rfl
    | cons b out => exact iff_of_false nofun nofun
  | cons a l ih =>
    rw [List.mapM_cons]
    simp only [Option.bind_eq_bind, Option.bind_eq_some_iff, Option.pure_def, Option.some.injEq, ih]
    constructor
    · rintro ⟨b, hb, rest, hrest, rfl⟩
      rw [List.map_cons, List.map_cons, hb, hrest]
    · intro h
      cases out with
      | nil => cases h
      | cons b rest =>
        obtain ⟨hb, hrest⟩ := List.cons.inj h
        exact ⟨b, hb, rest, hrest, rfl⟩

theorem refuseUnless_ok {cond : Prop} [Decidable cond] {code : PlanErrorCode} {message : String}
    {u : Unit} : refuseUnless cond code message = .ok u ↔ cond := by
  unfold refuseUnless
  split_ifs with h <;> simp [h]

theorem someOr_ok {α : Type} {option : Option α} {code : PlanErrorCode} {message : String} {a : α} :
    someOr option code message = .ok a ↔ option = some a := by
  cases option <;> simp [someOr]

theorem assertThat_ok {cond : Prop} [Decidable cond] {message : String} {u : Unit} :
    assertThat cond message = .ok u ↔ cond := by
  unfold assertThat
  split_ifs with h <;> simp [h]

theorem divide_ok {a b q : Nat} : divide a b = .ok q ↔ b ≠ 0 ∧ a / b = q := by
  unfold divide
  simp only [bind_ok, assertThat_ok, pure_ok, exists_const]

/-! ### Rounding up -/

theorem le_ceilDiv_mul (a : Nat) {b : Nat} (hb : 0 < b) : a ≤ (a ⌈/⌉ b) * b := by
  rw [Nat.mul_comm]
  exact (ceilDiv_le_iff_le_mul hb).mp le_rfl

theorem ceilDiv_mul_lt (a : Nat) {b : Nat} (hb : 0 < b) : (a ⌈/⌉ b) * b < a + b := by
  rw [Nat.ceilDiv_eq_add_pred_div]
  have := Nat.div_mul_le_self (a + b - 1) b
  omega

theorem ceilDiv_eq (a : Nat) {b : Nat} (hb : 0 < b) :
    a ⌈/⌉ b = a / b + if a % b = 0 then 0 else 1 := by
  have hdiv := Nat.div_add_mod a b
  have hsum : a + b - 1 = b * (a / b) + (a % b + b - 1) := by omega
  rw [Nat.ceilDiv_eq_add_pred_div, hsum, Nat.mul_add_div hb]
  congr 1
  split_ifs with hrem
  · exact Nat.div_eq_of_lt (by omega)
  · have hmod := Nat.mod_lt a hb
    rw [show a % b + b - 1 = a % b - 1 + b by omega, Nat.add_div_right _ hb,
      Nat.div_eq_of_lt (by omega)]

theorem ceilDiv_pos {a b : Nat} (ha : 0 < a) (hb : 0 < b) : 0 < a ⌈/⌉ b := by
  rw [Nat.ceilDiv_eq_add_pred_div]
  exact Nat.div_pos (by omega) hb

theorem ceilDiv_mono {a a' : Nat} (b : Nat) (h : a ≤ a') : a ⌈/⌉ b ≤ a' ⌈/⌉ b := by
  rw [Nat.ceilDiv_eq_add_pred_div, Nat.ceilDiv_eq_add_pred_div]
  exact Nat.div_le_div_right (by omega)

theorem le_nextMultipleOf (a : Nat) {b : Nat} (hb : 0 < b) : a ≤ nextMultipleOf a b :=
  le_ceilDiv_mul a hb

theorem nextMultipleOf_le {a b : Nat} (c : Nat) (hb : 0 < b) (h : a ≤ b * c) :
    nextMultipleOf a b ≤ b * c := by
  rw [nextMultipleOf, Nat.mul_comm b]
  exact Nat.mul_le_mul_right b ((ceilDiv_le_iff_le_mul hb).mpr h)

theorem nextMultipleOf_lt (a : Nat) {b : Nat} (hb : 0 < b) : nextMultipleOf a b < a + b :=
  ceilDiv_mul_lt a hb

end IreeRocket
