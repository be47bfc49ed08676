import IreeRocket.Core.Multiplier
import Mathlib.Algebra.Order.Floor.Semifield
import Mathlib.Algebra.Order.Floor.Semiring
import Mathlib.Algebra.Order.Field.Power
import Mathlib.Data.Rat.Floor
import Mathlib.Tactic.FieldSimp
import Mathlib.Tactic.Linarith
import Mathlib.Tactic.NormNum
import Mathlib.Tactic.Positivity
import Mathlib.Tactic.Ring

/-!
# Normalizing a requantization ratio

`Multiplier::try_from_ratio` drives `ratio * 2 ^ shift` into `[2^14, 2^15)` by two loops. A double is an
exact rational here, or infinity: doubling and halving are exact, and a product from `2^1024` on saturates.

The loops keep `scaled = ratio * 2 ^ shift`. The first one counts `shift` up to 63 and gives up there. The
second halves, which brings every finite value below `2^15` and leaves infinity as it is: a ratio whose
first product saturates is halved forever (`scaleDown_infinity`).

The ratio of a requantization is far below that, and what the loops return for it is the closed form
`Multiplier.tryFromRatio` (`requantizationRatio_encodes`).
-/

namespace IreeRocket.Conv

/-- A nonnegative double: an exact rational, or infinity. -/
inductive Extended
  | finite (value : ℚ)
  | infinity
  deriving DecidableEq

namespace Extended

/-- A product, which saturates. -/
def saturate (value : ℚ) : Extended := if value < 2 ^ 1024 then finite value else infinity

def mul (x : Extended) (factor : ℚ) : Extended :=
  match x with
  | finite value => saturate (value * factor)
  | infinity => infinity

def half : Extended → Extended
  | finite value => finite (value / 2)
  | infinity => infinity

def IsBelow (x : Extended) (bound : ℚ) : Prop :=
  match x with
  | finite value => value < bound
  | infinity => False

instance (x : Extended) (bound : ℚ) : Decidable (x.IsBelow bound) := by
  cases x <;> unfold IsBelow <;> infer_instance

/-- `round() as u32`, halves away from zero. -/
def round : Extended → Nat
  | finite value => ⌊value + 1 / 2⌋₊
  | infinity => 2 ^ 32 - 1

end Extended

/-! ### The loops -/

/-- `while scaled < MANTISSA_FLOOR`, within `fuel` rounds. -/
def scaleUp : Nat → Extended → Int → Option (Except String (Extended × Int))
  | 0, _, _ => none
  | fuel + 1, scaled, shift =>
    if scaled.IsBelow mantissaFloor then
      if shift + 1 > maxCvtShift then
        some (.error
          "requantization multiplier is too small to encode; DPU_OUT_CVT_SHIFT tops out at 63")
      else scaleUp fuel (scaled.mul 2) (shift + 1)
    else some (.ok (scaled, shift))

/-- `while scaled >= 2 * MANTISSA_FLOOR`, within `fuel` rounds. -/
def scaleDown : Nat → Extended → Int → Option (Extended × Int)
  | 0, _, _ => none
  | fuel + 1, scaled, shift =>
    if scaled.IsBelow (2 * mantissaFloor) then some (scaled, shift)
    else scaleDown fuel scaled.half (shift - 1)

/-- What follows the loops. -/
def encode (scaled : Extended) (shift : Int) : Except String Multiplier :=
  Multiplier.ofScale scaled.round shift

/-- `try_from_ratio`, within `fuel` rounds of each loop. -/
def tryFromRatio (fuel : Nat) : Extended → Option (Except String Multiplier)
  | .infinity => some (.error "requantization multiplier must be finite and positive")
  | .finite ratio =>
    if ratio ≤ 0 then some (.error "requantization multiplier must be finite and positive")
    else
      match scaleUp fuel (Extended.mul (.finite ratio) mantissaFloor) 14 with
      | none => none
      | some (.error message) => some (.error message)
      | some (.ok (scaled, shift)) =>
        (scaleDown fuel scaled shift).map fun (scaled, shift) => encode scaled shift

/-- The function returns. -/
def Terminates (ratio : ℚ) : Prop := ∃ fuel result, tryFromRatio fuel (.finite ratio) = some result

/-- What a returned multiplier satisfies. -/
structure Normalized (ratio : ℚ) (multiplier : Multiplier) : Prop where
  scale : 2 ^ 14 ≤ multiplier.scale ∧ multiplier.scale < 2 ^ 15
  shift : multiplier.shift ≤ 63
  error : |(multiplier.scale : ℚ) / 2 ^ multiplier.shift - ratio| ≤ 1 / 2 ^ (multiplier.shift + 1)

/-! ### Infinity -/

theorem scaleUp_infinity {fuel : Nat} {shift : Int} (h : fuel ≠ 0) :
    scaleUp fuel .infinity shift = some (.ok (.infinity, shift)) := by
  cases fuel with
  | zero => exact absurd rfl h
  | succ fuel => rfl

/-- **Infinity is halved forever.** -/
theorem scaleDown_infinity (fuel : Nat) (shift : Int) : scaleDown fuel .infinity shift = none := by
  induction fuel generalizing shift with
  | zero => rfl
  | succ fuel ih => exact ih (shift - 1)

/-! ### Finite values -/

theorem mantissaFloor_eq : (mantissaFloor : ℚ) = 2 ^ 14 := by
  unfold mantissaFloor
  norm_num

theorem mul_finite {value factor : ℚ} (h : value * factor < 2 ^ 1024) :
    Extended.mul (.finite value) factor = .finite (value * factor) := if_pos h

/-- The loops keep the product of the ratio and a power of two. -/
def IsScaled (ratio : ℚ) (scaled : Extended) (shift : Int) : Prop :=
  scaled = .finite (ratio * 2 ^ shift)

variable {ratio : ℚ} {scaled out : Extended} {shift shiftOut : Int} {fuel : Nat}

theorem IsScaled.double (h : IsScaled ratio scaled shift) (hsmall : scaled.IsBelow mantissaFloor) :
    IsScaled ratio (scaled.mul 2) (shift + 1) := by
  unfold IsScaled at h
  subst h
  rw [Extended.IsBelow, mantissaFloor_eq] at hsmall
  have hproduct : ratio * 2 ^ (shift + 1) = ratio * 2 ^ shift * 2 := by
    rw [zpow_add_one₀ two_ne_zero, mul_assoc]
  unfold IsScaled
  rw [hproduct]
  apply mul_finite
  calc ratio * 2 ^ shift * 2 < 2 ^ 14 * 2 := by linarith
    _ = 2 ^ 15 := by norm_num
    _ < 2 ^ 1024 := pow_lt_pow_right₀ one_lt_two (by decide)

theorem IsScaled.half (h : IsScaled ratio scaled shift) :
    IsScaled ratio scaled.half (shift - 1) := by
  unfold IsScaled at h
  subst h
  have hproduct : ratio * 2 ^ (shift - 1) = ratio * 2 ^ shift / 2 := by
    rw [zpow_sub_one₀ two_ne_zero]
    ring
  unfold IsScaled
  rw [hproduct]
  rfl

theorem scaleUp_ok (h : IsScaled ratio scaled shift) (hshift : shift ≤ 63)
    (hup : scaleUp fuel scaled shift = some (.ok (out, shiftOut))) :
    IsScaled ratio out shiftOut ∧ ¬ out.IsBelow mantissaFloor ∧ shiftOut ≤ 63 := by
  induction fuel generalizing scaled shift with
  | zero => cases hup
  | succ fuel ih =>
    rw [scaleUp] at hup
    split_ifs at hup with hsmall htop
    · cases hup
    · unfold maxCvtShift at htop
      exact ih (h.double hsmall) (by omega) hup
    · cases hup
      exact ⟨h, hsmall, hshift⟩

/-- The first loop gives up at the largest shift. -/
theorem scaleUp_error (h : IsScaled ratio scaled shift) (hshift : shift ≤ 63) {message : String}
    (hup : scaleUp fuel scaled shift = some (.error message)) : ratio * 2 ^ (63 : ℤ) < 2 ^ 14 ∧
      message = "requantization multiplier is too small to encode; DPU_OUT_CVT_SHIFT tops out at 63" := by
  induction fuel generalizing scaled shift with
  | zero => cases hup
  | succ fuel ih =>
    rw [scaleUp] at hup
    split_ifs at hup with hsmall htop
    · cases hup
      unfold maxCvtShift at htop
      obtain rfl : shift = 63 := by omega
      unfold IsScaled at h
      rw [h, Extended.IsBelow, mantissaFloor_eq] at hsmall
      exact ⟨hsmall, rfl⟩
    · unfold maxCvtShift at htop
      exact ih (h.double hsmall) (by omega) hup
    · cases hup

theorem scaleDown_ok (h : IsScaled ratio scaled shift) (hlow : ¬ scaled.IsBelow mantissaFloor)
    (hdown : scaleDown fuel scaled shift = some (out, shiftOut)) :
    IsScaled ratio out shiftOut ∧ ¬ out.IsBelow mantissaFloor ∧ out.IsBelow (2 * mantissaFloor) ∧
      shiftOut ≤ shift := by
  induction fuel generalizing scaled shift with
  | zero => cases hdown
  | succ fuel ih =>
    rw [scaleDown] at hdown
    split_ifs at hdown with hsmall
    · cases hdown
      exact ⟨h, hlow, hsmall, le_rfl⟩
    · have hhalf : ¬ scaled.half.IsBelow mantissaFloor := by
        cases scaled with
        | infinity => exact id
        | finite value =>
          rw [Extended.IsBelow, not_lt] at hsmall
          rw [Extended.half, Extended.IsBelow, not_lt]
          linarith
      obtain ⟨hscaled, hlow', hhigh, hle⟩ := ih h.half hhalf hdown
      exact ⟨hscaled, hlow', hhigh, by omega⟩

/-! ### Termination -/

/-- The first loop counts the shift. -/
theorem scaleUp_returns (scaled : Extended) {shift : Int} (h : 63 ≤ shift + fuel) :
    ∃ result, scaleUp (fuel + 1) scaled shift = some result := by
  induction fuel generalizing scaled shift with
  | zero =>
    have htop : shift + 1 > maxCvtShift := by
      unfold maxCvtShift
      omega
    rw [scaleUp, if_pos htop]
    split_ifs
    · exact ⟨_, rfl⟩
    · exact ⟨_, rfl⟩
  | succ fuel ih =>
    rw [scaleUp]
    split_ifs
    · exact ⟨_, rfl⟩
    · apply ih
      push_cast at h
      omega
    · exact ⟨_, rfl⟩

/-- The second loop halves a finite value below its bound. -/
theorem scaleDown_returns {value : ℚ} (h : value < 2 ^ (15 + fuel)) (shift : Int) :
    ∃ result, scaleDown (fuel + 1) (.finite value) shift = some result := by
  induction fuel generalizing value shift with
  | zero =>
    have hbelow : (Extended.finite value).IsBelow (2 * mantissaFloor) := by
      rw [Extended.IsBelow, mantissaFloor_eq, ← pow_succ']
      exact h
    rw [scaleDown, if_pos hbelow]
    exact ⟨_, rfl⟩
  | succ fuel ih =>
    rw [scaleDown]
    split_ifs
    · exact ⟨_, rfl⟩
    · apply ih
      rw [div_lt_iff₀ two_pos, ← pow_succ]
      exact h

/-- The product the loops start from. -/
theorem mul_floor (ratio : ℚ) : Extended.mul (.finite ratio) mantissaFloor =
    if ratio < 2 ^ 1010 then .finite (ratio * 2 ^ (14 : ℤ)) else .infinity := by
  have hproduct : ratio * 2 ^ 14 < 2 ^ 1024 ↔ ratio < 2 ^ 1010 := by
    rw [show (2 : ℚ) ^ 1024 = 2 ^ 1010 * 2 ^ 14 by rw [← pow_add]]
    exact mul_lt_mul_iff_left₀ (by norm_num)
  rw [Extended.mul, Extended.saturate, mantissaFloor_eq]
  by_cases h : ratio < 2 ^ 1010
  · rw [if_pos h, if_pos (hproduct.mpr h)]
    rfl
  · rw [if_neg h, if_neg (mt hproduct.mp h)]

/-- **The function returns where the first product is finite.** -/
theorem terminates_iff (hpos : 0 < ratio) : Terminates ratio ↔ ratio < 2 ^ 1010 := by
  constructor
  · rintro ⟨fuel, result, hresult⟩
    by_contra hlarge
    have hfuel : fuel ≠ 0 := by
      rintro rfl
      rw [tryFromRatio, if_neg hpos.not_ge] at hresult
      cases hresult
    rw [tryFromRatio, if_neg hpos.not_ge, mul_floor, if_neg hlarge, scaleUp_infinity hfuel] at hresult
    dsimp only at hresult
    rw [scaleDown_infinity] at hresult
    cases hresult
  · intro hsmall
    have hstart : IsScaled ratio (.finite (ratio * 2 ^ (14 : ℤ))) 14 := rfl
    obtain ⟨up, hup⟩ : ∃ up, scaleUp 1060 (.finite (ratio * 2 ^ (14 : ℤ))) 14 = some up :=
      scaleUp_returns _ (by norm_num)
    refine ⟨1060, ?_⟩
    rw [tryFromRatio, if_neg hpos.not_ge, mul_floor, if_pos hsmall, hup]
    cases up with
    | error message => exact ⟨_, rfl⟩
    | ok out =>
      obtain ⟨hscaled, -, hshift⟩ := scaleUp_ok hstart (by norm_num) hup
      have hbound : ratio * 2 ^ out.2 < 2 ^ (15 + 1059) := by
        have hpow : (2 : ℚ) ^ out.2 ≤ 2 ^ (63 : ℤ) := zpow_le_zpow_right₀ one_le_two hshift
        calc ratio * 2 ^ out.2 ≤ ratio * 2 ^ (63 : ℤ) := mul_le_mul_of_nonneg_left hpow hpos.le
          _ < 2 ^ 1010 * 2 ^ (63 : ℤ) := mul_lt_mul_of_pos_right hsmall (by positivity)
          _ = 2 ^ 1073 := by rw [← zpow_natCast, ← zpow_natCast, ← zpow_add₀ two_ne_zero]; rfl
          _ < 2 ^ (15 + 1059) := pow_lt_pow_right₀ one_lt_two (by decide)
      obtain ⟨down, hdown⟩ := scaleDown_returns hbound out.2
      dsimp only
      rw [hscaled, hdown]
      exact ⟨_, rfl⟩

/-! ### Accuracy -/

/-- Rounding to the nearest is half a unit off, and a unit is one over the power of the shift. -/
theorem abs_sub_le_of_round {value : ℚ} {scale : Nat} (h : |(scale : ℚ) - value| ≤ 1 / 2) (shift : Nat) :
    |(scale : ℚ) / 2 ^ shift - value / 2 ^ shift| ≤ 1 / 2 ^ (shift + 1) := by
  have hpow : (0 : ℚ) < 2 ^ shift := by positivity
  rw [← sub_div, abs_div, abs_of_pos hpow]
  calc |(scale : ℚ) - value| / 2 ^ shift ≤ 1 / 2 / 2 ^ shift := by gcongr
    _ = 1 / 2 ^ (shift + 1) := by rw [div_div, ← pow_succ']

theorem encode_ok {multiplier : Multiplier} (hscaled : IsScaled ratio scaled shift)
    (hlow : ¬ scaled.IsBelow mantissaFloor) (hhigh : scaled.IsBelow (2 * mantissaFloor))
    (hshift : shift ≤ 63) (h : encode scaled shift = .ok multiplier) :
    Normalized ratio multiplier := by
  unfold IsScaled at hscaled
  subst hscaled
  rw [Extended.IsBelow, mantissaFloor_eq, not_lt] at hlow
  rw [Extended.IsBelow, mantissaFloor_eq] at hhigh
  have hvalue : ∀ s : Nat, shift = s → ratio = ratio * 2 ^ shift / 2 ^ s := by
    rintro s rfl
    rw [zpow_natCast, mul_div_cancel_right₀ _ (by positivity)]
  unfold encode Multiplier.ofScale at h
  rw [Extended.round] at h
  generalize ratio * 2 ^ shift = value at hlow hhigh h hvalue
  have hlower : 2 ^ 14 ≤ ⌊value + 1 / 2⌋₊ := Nat.le_floor (by push_cast; linarith)
  have hbelow : (⌊value + 1 / 2⌋₊ : ℚ) ≤ value + 1 / 2 := Nat.floor_le (by linarith)
  have habove : value + 1 / 2 < ⌊value + 1 / 2⌋₊ + 1 := Nat.lt_floor_add_one _
  have hnear : |(⌊value + 1 / 2⌋₊ : ℚ) - value| ≤ 1 / 2 := abs_le.mpr ⟨by linarith, by linarith⟩
  have hupper : ⌊value + 1 / 2⌋₊ ≤ 2 ^ 15 := by
    have hlt : (⌊value + 1 / 2⌋₊ : ℚ) < 2 ^ 15 + 1 := by linarith
    have hcast : ⌊value + 1 / 2⌋₊ < 2 ^ 15 + 1 := by exact_mod_cast hlt
    exact Nat.lt_succ_iff.mp hcast
  generalize ⌊value + 1 / 2⌋₊ = scale at *
  have hfloor : 2 * mantissaFloor = 2 ^ 15 := rfl
  by_cases hcarry : 2 * mantissaFloor ≤ scale
  · -- the carry: half the scale at one shift less
    obtain rfl : scale = 2 ^ 15 := by omega
    rw [if_pos hcarry] at h
    simp only [bind_ok, unlessErr_ok, exists_const, pure_ok] at h
    obtain ⟨hnonneg, rfl⟩ := h
    obtain ⟨s, hs⟩ := Int.eq_ofNat_of_zero_le hnonneg
    have hsucc : shift = ((s + 1 : ℕ) : ℤ) := by omega
    rw [hs, hvalue (s + 1) hsucc]
    refine ⟨⟨by norm_num, by norm_num⟩, by simp only [Int.toNat_natCast]; omega, ?_⟩
    have herror := abs_sub_le_of_round hnear (s + 1)
    have hhalf : ((2 ^ 15 / 2 : ℕ) : ℚ) / 2 ^ s = ((2 ^ 15 : ℕ) : ℚ) / 2 ^ (s + 1) := by
      rw [pow_succ]
      field_simp
      norm_num
      ring
    simp only [Int.toNat_natCast]
    rw [hhalf]
    refine herror.trans ?_
    apply one_div_le_one_div_of_le (by positivity)
    exact pow_le_pow_right₀ one_le_two (Nat.le_succ _)
  · rw [if_neg hcarry] at h
    simp only [bind_ok, unlessErr_ok, exists_const, pure_ok] at h
    obtain ⟨hnonneg, rfl⟩ := h
    obtain ⟨s, rfl⟩ := Int.eq_ofNat_of_zero_le hnonneg
    rw [hvalue s rfl]
    have hscale : scale < 2 ^ 15 := by omega
    refine ⟨⟨hlower, hscale⟩, by simp only [Int.toNat_natCast]; omega, ?_⟩
    simp only [Int.toNat_natCast]
    exact abs_sub_le_of_round hnear s

/-- **What the function returns**: it gives up where the largest shift is not enough, and encodes at a
shift that brings the ratio into the range otherwise. -/
theorem tryFromRatio_some (hpos : 0 < ratio) {result : Except String Multiplier}
    (h : tryFromRatio fuel (.finite ratio) = some result) :
    (ratio * 2 ^ (63 : ℤ) < 2 ^ 14 ∧ result = .error
      "requantization multiplier is too small to encode; DPU_OUT_CVT_SHIFT tops out at 63") ∨
    ∃ shift : ℤ, IsScaled ratio (.finite (ratio * 2 ^ shift)) shift ∧
      ¬ (Extended.finite (ratio * 2 ^ shift)).IsBelow mantissaFloor ∧
      (Extended.finite (ratio * 2 ^ shift)).IsBelow (2 * mantissaFloor) ∧ shift ≤ 63 ∧
      result = encode (.finite (ratio * 2 ^ shift)) shift := by
  rw [tryFromRatio, if_neg hpos.not_ge, mul_floor] at h
  split_ifs at h with hsmall
  · have hstart : IsScaled ratio (.finite (ratio * 2 ^ (14 : ℤ))) 14 := rfl
    cases hup : scaleUp fuel (.finite (ratio * 2 ^ (14 : ℤ))) 14 with
    | none =>
      rw [hup] at h
      cases h
    | some up =>
      rw [hup] at h
      cases up with
      | error message =>
        obtain ⟨hbelow, rfl⟩ := scaleUp_error hstart (by norm_num) hup
        exact .inl ⟨hbelow, (Option.some.inj h).symm⟩
      | ok out =>
        obtain ⟨hscaled, hlow, hshift⟩ := scaleUp_ok hstart (by norm_num) hup
        obtain ⟨⟨down, shift⟩, hdown, hencode⟩ := Option.map_eq_some_iff.mp h
        obtain ⟨hscaled', hlow', hhigh, hle⟩ := scaleDown_ok hscaled hlow hdown
        unfold IsScaled at hscaled'
        subst hscaled'
        exact .inr ⟨shift, rfl, hlow', hhigh, hle.trans hshift, hencode.symm⟩
  · cases hup : scaleUp fuel .infinity 14 with
    | none =>
      rw [hup] at h
      cases h
    | some up =>
      have hfuel : fuel ≠ 0 := by
        rintro rfl
        cases hup
      rw [scaleUp_infinity hfuel] at h
      dsimp only at h
      rw [scaleDown_infinity] at h
      cases h

/-- **A returned multiplier is normalized and near.** -/
theorem tryFromRatio_ok (hpos : 0 < ratio) {multiplier : Multiplier}
    (h : tryFromRatio fuel (.finite ratio) = some (.ok multiplier)) : Normalized ratio multiplier := by
  rcases tryFromRatio_some hpos h with ⟨-, herror⟩ | ⟨shift, hscaled, hlow, hhigh, hshift, hencode⟩
  · cases herror
  · exact encode_ok hscaled hlow hhigh hshift hencode.symm

/-- **The encoder returns on the ratios below `2 ^ 1010`, and what it returns is normalized and near.** -/
theorem ratio_encodes_iff (ratio : ℚ) (hpos : 0 < ratio) :
    (Terminates ratio ∧ ∀ fuel multiplier,
      tryFromRatio fuel (.finite ratio) = some (.ok multiplier) → Normalized ratio multiplier) ↔
        ratio < 2 ^ 1010 := by
  rw [terminates_iff hpos]
  exact and_iff_left fun _ _ => tryFromRatio_ok hpos

/-- The ratio of a rescale by three quarters. -/
theorem ratio_encodes_three_quarters :
    (Terminates (3 / 4) ∧ ∀ fuel multiplier,
      tryFromRatio fuel (.finite (3 / 4)) = some (.ok multiplier) → Normalized (3 / 4) multiplier) ↔
        (3 / 4 : ℚ) < 2 ^ 1010 :=
  ratio_encodes_iff (3 / 4) (by norm_num)

/-- **The power of two whose first product saturates is never encoded.** -/
theorem huge_ratio_loops : (0 : ℚ) < 2 ^ 1010 ∧ (2 : ℚ) ^ 1010 < 2 ^ 1024 ∧ ¬ Terminates (2 ^ 1010) := by
  refine ⟨by positivity, pow_lt_pow_right₀ one_lt_two (by decide), fun h => ?_⟩
  exact lt_irrefl _ ((terminates_iff (by positivity)).mp h)

/-! ### The closed form -/

namespace F64

def value (r : F64) : ℚ := r.mantissa * 2 ^ r.exponent

/-- The mantissa has its leading bit. -/
def IsNormal (r : F64) : Prop := 2 ^ 52 ≤ r.mantissa ∧ r.mantissa < 2 ^ 53

variable {r : F64}

/-- A normal double is between two powers of two. -/
theorem IsNormal.bounds (h : r.IsNormal) (shift : ℤ) :
    (2 : ℚ) ^ (52 + r.exponent + shift) ≤ r.value * 2 ^ shift ∧
      r.value * 2 ^ shift < 2 ^ (53 + r.exponent + shift) := by
  have hpow : (0 : ℚ) < 2 ^ (r.exponent + shift) := by positivity
  have hlow : (2 : ℚ) ^ 52 ≤ r.mantissa := by exact_mod_cast h.1
  have hhigh : (r.mantissa : ℚ) < 2 ^ 53 := by exact_mod_cast h.2
  have hvalue : r.value * 2 ^ shift = r.mantissa * 2 ^ (r.exponent + shift) := by
    rw [value, zpow_add₀ two_ne_zero, mul_assoc]
  have hsplit : ∀ n : ℤ, (2 : ℚ) ^ (n + r.exponent + shift) = 2 ^ n * 2 ^ (r.exponent + shift) := by
    intro n
    rw [add_assoc, zpow_add₀ two_ne_zero]
  rw [hvalue, hsplit, hsplit]
  exact ⟨mul_le_mul_of_nonneg_right hlow hpow.le, mul_lt_mul_of_pos_right hhigh hpow⟩

theorem IsNormal.pos (h : r.IsNormal) : 0 < r.value := by
  have hlow := (h.bounds 0).1
  rw [zpow_zero, mul_one] at hlow
  exact lt_of_lt_of_le (by positivity) hlow

/-- The shifts from which on a double reaches the range, and up to which it stays below its end. -/
theorem IsNormal.reaches_iff (h : r.IsNormal) (shift : ℤ) :
    (2 : ℚ) ^ 14 ≤ r.value * 2 ^ shift ↔ -38 - r.exponent ≤ shift := by
  obtain ⟨hlow, hhigh⟩ := h.bounds shift
  constructor
  · intro hreach
    have hlt := (zpow_lt_zpow_iff_right₀ one_lt_two).mp
      (show (2 : ℚ) ^ (14 : ℤ) < 2 ^ (53 + r.exponent + shift) from hreach.trans_lt hhigh)
    omega
  · intro hshift
    exact (zpow_le_zpow_right₀ one_le_two (show (14 : ℤ) ≤ 52 + r.exponent + shift by omega)).trans hlow

theorem IsNormal.stays_iff (h : r.IsNormal) (shift : ℤ) :
    r.value * 2 ^ shift < (2 : ℚ) ^ 15 ↔ shift ≤ -38 - r.exponent := by
  obtain ⟨hlow, hhigh⟩ := h.bounds shift
  constructor
  · intro hstay
    have hlt := (zpow_lt_zpow_iff_right₀ one_lt_two).mp
      (show (2 : ℚ) ^ (52 + r.exponent + shift) < 2 ^ (15 : ℤ) from hlow.trans_lt hstay)
    omega
  · intro hshift
    exact hhigh.trans_le
      (zpow_le_zpow_right₀ one_le_two (show 53 + r.exponent + shift ≤ (15 : ℤ) by omega))

end F64

/-- At its shift, a double is its mantissa without the last 38 bits, rounded. -/
theorem round_normal (r : F64) :
    (Extended.finite (r.value * 2 ^ (-38 - r.exponent))).round = (r.mantissa + 2 ^ 37) / 2 ^ 38 := by
  have hvalue : r.value * 2 ^ (-38 - r.exponent) + 1 / 2 =
      ((r.mantissa + 2 ^ 37 : ℕ) : ℚ) / ((2 ^ 38 : ℕ) : ℚ) := by
    have hpow : r.value * 2 ^ (-38 - r.exponent) = r.mantissa * 2 ^ (-38 : ℤ) := by
      rw [F64.value, mul_assoc, ← zpow_add₀ two_ne_zero]
      congr 2
      ring
    rw [hpow]
    push_cast
    rw [zpow_neg]
    norm_num
    ring
  rw [Extended.round, hvalue, Nat.floor_div_eq_div]

/-- **The closed form is what the loops return.** -/
theorem tryFromRatio_closed {r : F64} (h : r.IsNormal) {result : Except String Multiplier}
    (hresult : tryFromRatio fuel (.finite r.value) = some result) :
    result = Multiplier.tryFromRatio r := by
  rcases tryFromRatio_some h.pos hresult with ⟨hsmall, rfl⟩ | ⟨shift, -, hlow, hhigh, hshift, rfl⟩
  · have htop : ¬ (-38 - r.exponent ≤ maxCvtShift) := fun hle =>
      absurd ((h.reaches_iff 63).mpr hle) (not_le.mpr hsmall)
    exact (unlessErr_bind_neg htop).symm
  · rw [Extended.IsBelow, mantissaFloor_eq, not_lt, h.reaches_iff] at hlow
    rw [Extended.IsBelow, mantissaFloor_eq, ← pow_succ', h.stays_iff] at hhigh
    obtain rfl : shift = -38 - r.exponent := le_antisymm hhigh hlow
    rw [encode, round_normal]
    exact (unlessErr_bind_pos hshift).symm

/-! ### The ratio of a requantization -/

namespace F32

variable {bits : Nat}

theorem mantissa_lt (bits : Nat) : mantissa bits < 2 ^ 24 := by
  unfold mantissa
  split_ifs <;> omega

theorem mantissa_pos (h : IsPositive bits) : 0 < mantissa bits := by
  obtain ⟨hpos, hle⟩ := h
  unfold mantissa exponentField
  split_ifs <;> omega

theorem le_exponent (bits : Nat) : -149 ≤ exponent bits := by
  unfold exponent
  split_ifs <;> omega

theorem exponent_le (h : IsFinite bits) : exponent bits ≤ 104 := by
  unfold IsFinite exponentField at h
  unfold exponent exponentField
  split_ifs <;> omega

end F32

/-- Dropping the bits of a number past the 53rd, rounding up or not, keeps the leading one. -/
theorem kept_bounds {quotient : Nat} (h : 2 ^ 53 ≤ quotient) :
    2 ^ 52 ≤ quotient / 2 ^ (quotient.log2 - 52) ∧ quotient / 2 ^ (quotient.log2 - 52) < 2 ^ 53 := by
  have hne : quotient ≠ 0 := by omega
  have hlog : 53 ≤ quotient.log2 := (Nat.le_log2 hne).mpr h
  have hlow : 2 ^ quotient.log2 ≤ quotient := Nat.log2_self_le hne
  have hhigh : quotient < 2 ^ (quotient.log2 + 1) := Nat.lt_log2_self
  constructor
  · rw [Nat.le_div_iff_mul_le (by positivity), ← pow_add]
    rwa [show 52 + (quotient.log2 - 52) = quotient.log2 by omega]
  · rw [Nat.div_lt_iff_lt_mul (by positivity), ← pow_add]
    rwa [show 53 + (quotient.log2 - 52) = quotient.log2 + 1 by omega]

/-- The quotient has a 54th bit. -/
theorem le_quotient {numerator denominator : Nat} (hn : 0 < numerator) (hd : 0 < denominator) :
    2 ^ 53 ≤ numerator * 2 ^ (54 + denominator.log2) / denominator := by
  rw [Nat.le_div_iff_mul_le hd]
  have hlt : denominator < 2 ^ (denominator.log2 + 1) := Nat.lt_log2_self
  calc 2 ^ 53 * denominator ≤ 2 ^ 53 * 2 ^ (denominator.log2 + 1) := Nat.mul_le_mul_left _ hlt.le
    _ = 1 * 2 ^ (54 + denominator.log2) := by rw [← pow_add, one_mul]; congr 1; omega
    _ ≤ numerator * 2 ^ (54 + denominator.log2) := Nat.mul_le_mul_right _ hn

/-- Rounding up to the end of the range carries into the exponent. -/
theorem carry_normal {kept : Nat} {exponent : ℤ} (hlow : 2 ^ 52 ≤ kept) (hhigh : kept < 2 ^ 53) (up : Prop)
    [Decidable up] (hexponent : exponent ≤ 352) :
    let rounded := if up then kept + 1 else kept
    let r : F64 := if rounded = 2 ^ 53 then ⟨2 ^ 52, exponent + 1⟩ else ⟨rounded, exponent⟩
    r.IsNormal ∧ r.exponent ≤ 353 := by
  intro rounded r
  have hrounded : 2 ^ 52 ≤ rounded ∧ rounded ≤ 2 ^ 53 := by
    dsimp only [rounded]
    split_ifs <;> omega
  dsimp only [r]
  generalize rounded = n at *
  unfold F64.IsNormal
  split_ifs with htop
  · dsimp only
    omega
  · dsimp only
    omega

/-- **The ratio of calibration scales is a normal double**, far below the bound of the loops. -/
theorem requantizationRatio_normal {input weights output : Nat}
    (hi : F32.IsPositive input) (hw : F32.IsPositive weights) (ho : F32.IsPositive output)
    (hif : F32.IsFinite input) (hwf : F32.IsFinite weights) :
    (requantizationRatio input weights output).IsNormal ∧
      (requantizationRatio input weights output).exponent ≤ 353 := by
  have hn : 0 < F32.mantissa input * F32.mantissa weights :=
    Nat.mul_pos (F32.mantissa_pos hi) (F32.mantissa_pos hw)
  have hquotient := le_quotient hn (F32.mantissa_pos ho)
  have hbelow : F32.mantissa input * F32.mantissa weights *
      2 ^ (54 + (F32.mantissa output).log2) / F32.mantissa output <
        2 ^ (48 + (54 + (F32.mantissa output).log2)) := by
    calc _ ≤ F32.mantissa input * F32.mantissa weights * 2 ^ (54 + (F32.mantissa output).log2) :=
          Nat.div_le_self _ _
      _ < 2 ^ 24 * 2 ^ 24 * 2 ^ (54 + (F32.mantissa output).log2) :=
          Nat.mul_lt_mul_of_pos_right
            (Nat.mul_lt_mul'' (F32.mantissa_lt input) (F32.mantissa_lt weights)) (by positivity)
      _ = _ := by rw [← pow_add, ← pow_add]
  have hie := F32.exponent_le hif
  have hwe := F32.exponent_le hwf
  have hoe := F32.le_exponent output
  unfold requantizationRatio
  dsimp only
  generalize 54 + (F32.mantissa output).log2 = places at *
  generalize hq : F32.mantissa input * F32.mantissa weights * 2 ^ places / F32.mantissa output = quotient at *
  have hne : quotient ≠ 0 := by omega
  have hfirst : 53 ≤ quotient.log2 := (Nat.le_log2 hne).mpr hquotient
  have hlog : quotient.log2 < 48 + places := (Nat.log2_lt hne).mpr hbelow
  obtain ⟨hlow, hhigh⟩ := kept_bounds hquotient
  exact carry_normal hlow hhigh _ (by omega)

/-- **A requantization's ratio is encoded as the closed form says**: its loops end, and return that. -/
theorem requantizationRatio_encodes {input weights output : Nat} (hi : F32.IsPositive input)
    (hw : F32.IsPositive weights) (ho : F32.IsPositive output) (hif : F32.IsFinite input)
    (hwf : F32.IsFinite weights) :
    ∃ fuel, tryFromRatio fuel (.finite (requantizationRatio input weights output).value) =
      some (Multiplier.tryFromRatio (requantizationRatio input weights output)) := by
  obtain ⟨hnormal, hexponent⟩ := requantizationRatio_normal hi hw ho hif hwf
  generalize requantizationRatio input weights output = r at hnormal hexponent ⊢
  have hbelow : r.value < 2 ^ 1010 := by
    have hhigh := (hnormal.bounds 0).2
    rw [zpow_zero, mul_one, add_zero] at hhigh
    exact hhigh.trans_le
      (zpow_le_zpow_right₀ one_le_two (show 53 + r.exponent ≤ (1010 : ℤ) by omega))
  obtain ⟨fuel, result, hresult⟩ := (terminates_iff hnormal.pos).mpr hbelow
  rw [tryFromRatio_closed hnormal hresult] at hresult
  exact ⟨fuel, hresult⟩

end IreeRocket.Conv
