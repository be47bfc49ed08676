import IreeRocket.Core.Geometry
import IreeRocket.Core.Weights

/-!
# The wire format of a convolution

A convolution's shape and kernels travel as 21 little-endian words: a version, the extents, the padding,
the quantization, the activation and the precision, each of the last two as a tag of the format's own. A
reader takes the words back one by one.

The format has no word for "no padding given". `encode_conv_shape_v1` writes zeros there, and
`decode_conv_shape_v1` reads explicit padding back; the planner, though, gives a shape without padding
half its kernel. So a shape without padding comes back as another convolution, unless its kernel has no
half (`wire_round_trip_iff`).
-/

namespace IreeRocket.ExecutableFormat

open Conv Weights

/-! ### Words -/

/-- `to_le_bytes` of a `u32`. -/
def le32 (n : Nat) : Bytes :=
  [.ofNat n, .ofNat (n / 2 ^ 8), .ofNat (n / 2 ^ 16), .ofNat (n / 2 ^ 24)]

/-- `u32::from_le_bytes`. -/
def fromLe32 : Bytes → Nat
  | [a, b, c, d] => a.toNat + b.toNat * 2 ^ 8 + c.toNat * 2 ^ 16 + d.toNat * 2 ^ 24
  | _ => 0

/-- `i32 as u32`, bit by bit. -/
def i32Bits (z : Int) : Nat := (z % 2 ^ 32).toNat

/-- `u32 as i32`. -/
def asI32 (n : Nat) : Int := if n < 2 ^ 31 then n else n - 2 ^ 32

/-- An `i32`. -/
def IsI32 (z : Int) : Prop := -2 ^ 31 ≤ z ∧ z < 2 ^ 31

theorem length_le32 (n : Nat) : (le32 n).length = 4 := rfl

theorem fromLe32_le32 (n : Nat) : fromLe32 (le32 n) = wrap32 n := by
  simp only [le32, fromLe32, UInt8.toNat_ofNat', wrap32]
  omega

theorem i32Bits_lt (z : Int) : i32Bits z < 2 ^ 32 := by
  unfold i32Bits
  omega

theorem asI32_i32Bits {z : Int} (h : IsI32 z) : asI32 (i32Bits z) = z := by
  obtain ⟨hlow, hhigh⟩ := h
  unfold asI32 i32Bits
  split_ifs <;> omega

/-! ### Descriptors -/

/-- The calibration scales of a quantization, as bit patterns. -/
structure Scales where
  input : Nat
  weights : Nat
  deriving DecidableEq, Repr

/-- A precision with the scales its quantization carries. The planner reads no scale, so `Precision`
has none. -/
structure ScaledPrecision where
  precision : Precision
  scales : Option Scales
  carried : scales.isSome = precision.quantization.isSome

/-- A shape with the scales its quantization carries. -/
structure Descriptor where
  shape : Shape
  scales : Option Scales
  carried : scales.isSome = shape.precision.quantization.isSome

@[ext] theorem Descriptor.ext {d d' : Descriptor} (hshape : d.shape = d'.shape)
    (hscales : d.scales = d'.scales) : d = d' := by
  cases d
  cases d'
  simp_all

inductive DecodeError
  | wrongLength (expected actual : Nat)
  | unsupportedVersion (version : Nat)
  | invalidActivationTag (tag : Nat)
  | invalidPrecisionTag (tag : Nat)
  deriving DecidableEq, Repr

def conv2dV1FormatVersion : Nat := 4

/-- The words of a payload: the version, and `FIELD_COUNT_U32` more. -/
def payloadLen : Nat := 4 + 20 * 4

/-- The words of an activation: its tag and `cmp`. -/
def activationWords : Activation → Nat × Nat
  | .none => (0, 0)
  | .relu => (1, 0)
  | .clamped cmp => (2, cmp)

def precisionTag : Precision → Nat
  | .int8 _ => 0
  | .fp16 => 1
  | .int8Accumulator _ => 2
  | .bf16 => 3
  | .int16 => 4
  | .int4 => 5
  | .tf32 => 6
  | .fp16Accumulator => 7

/-- The quantization words, zeros where there is none. -/
def quantizationWords (precision : Precision) (scales : Option Scales) : List Nat :=
  let quantization := precision.quantization.getD ⟨0, 0, 0, ⟨0, 0⟩⟩
  let scales := scales.getD ⟨0, 0⟩
  [i32Bits quantization.inputZeroPoint, i32Bits quantization.outputZeroPoint,
    i32Bits quantization.weightZeroPoint, scales.input, scales.weights, quantization.multiplier.scale,
    quantization.multiplier.shift]

def encodeConvShapeV1 (descriptor : Descriptor) (kernels : Kernels) : Bytes :=
  let shape := descriptor.shape
  let (weightsHeight, weightsWidth) := kernels
  let (padTop, padLeft) := shape.padding.getD (0, 0)
  let (activationTag, activationCmp) := activationWords shape.activation
  ([conv2dV1FormatVersion, shape.width, shape.height, shape.inChannels, shape.outChannels,
      wrap32 weightsWidth, wrap32 weightsHeight, shape.stride, shape.depthwise.toNat, wrap32 padTop,
      wrap32 padLeft] ++
    quantizationWords shape.precision descriptor.scales ++
    [activationTag, activationCmp, precisionTag shape.precision]).flatMap le32

/-- A cursor into the payload. -/
abbrev Reader (α : Type) := StateT Bytes (Except DecodeError) α

/-- `read_u32`. -/
def readU32 : Reader Nat := fun cursor => .ok (fromLe32 (cursor.take 4), cursor.drop 4)

def decodeActivation (tag cmp : Nat) : Except DecodeError Activation :=
  match tag with
  | 0 => .ok .none
  | 1 => .ok .relu
  | 2 => .ok (.clamped cmp)
  | other => .error (.invalidActivationTag other)

def decodePrecision (tag : Nat) (quantization : Quantization) (scales : Scales) :
    Except DecodeError ScaledPrecision :=
  match tag with
  | 0 => .ok ⟨.int8 quantization, some scales, rfl⟩
  | 1 => .ok ⟨.fp16, none, rfl⟩
  | 3 => .ok ⟨.bf16, none, rfl⟩
  | 4 => .ok ⟨.int16, none, rfl⟩
  | 5 => .ok ⟨.int4, none, rfl⟩
  | 6 => .ok ⟨.tf32, none, rfl⟩
  | 7 => .ok ⟨.fp16Accumulator, none, rfl⟩
  | 2 => .ok ⟨.int8Accumulator quantization, some scales, rfl⟩
  | other => .error (.invalidPrecisionTag other)

/-- The payload after the check of its length. -/
def readConvShape : Reader (Descriptor × Kernels) := do
  let version ← readU32
  StateT.lift (unlessErr (version = conv2dV1FormatVersion) (.unsupportedVersion version))
  let width ← readU32
  let height ← readU32
  let inChannels ← readU32
  let outChannels ← readU32
  let weightsWidth ← readU32
  let weightsHeight ← readU32
  let stride ← readU32
  let depthwise ← readU32
  let padTop ← readU32
  let padLeft ← readU32
  let inputZeroPoint ← readU32
  let outputZeroPoint ← readU32
  let weightZeroPoint ← readU32
  let inputScale ← readU32
  let weightsScale ← readU32
  let multiplierScale ← readU32
  let multiplierShift ← readU32
  let activationTag ← readU32
  let activationCmp ← readU32
  let precisionTag ← readU32
  let activation ← StateT.lift (decodeActivation activationTag activationCmp)
  let quantization : Quantization := {
    inputZeroPoint := asI32 inputZeroPoint
    outputZeroPoint := asI32 outputZeroPoint
    weightZeroPoint := asI32 weightZeroPoint
    multiplier := ⟨multiplierScale, multiplierShift⟩ }
  let precision ← StateT.lift
    (decodePrecision precisionTag quantization ⟨inputScale, weightsScale⟩)
  let shape : Shape := {
    width, height, stride, inChannels, outChannels
    precision := precision.precision
    padding := some (padTop, padLeft)
    activation
    depthwise := depthwise != 0 }
  return (⟨shape, precision.scales, precision.carried⟩, (weightsHeight, weightsWidth))

def decodeConvShapeV1 (payload : Bytes) : Except DecodeError (Descriptor × Kernels) := do
  unlessErr (payload.length = payloadLen) (.wrongLength payloadLen payload.length)
  let (decoded, _) ← readConvShape.run payload
  return decoded

/-! ### Reading what was written -/

/-- What the machine types of a descriptor bound. The shape's own constructors bound the rest. -/
structure Descriptor.Typed (d : Descriptor) : Prop where
  zeroPoints : ∀ q, d.shape.precision.quantization = some q →
    IsI32 q.inputZeroPoint ∧ IsI32 q.outputZeroPoint ∧ IsI32 q.weightZeroPoint
  multiplier : ∀ q, d.shape.precision.quantization = some q →
    q.multiplier.scale < 2 ^ 32 ∧ q.multiplier.shift < 2 ^ 32
  scales : ∀ scales, d.scales = some scales → scales.input < 2 ^ 32 ∧ scales.weights < 2 ^ 32
  cmp : ∀ cmp, d.shape.activation = .clamped cmp → cmp < 2 ^ 32

theorem readU32_bind {α : Type} (f : Nat → Reader α) (n : Nat) (rest : Bytes) :
    (readU32 >>= f) (le32 n ++ rest) = f (wrap32 n) rest := by
  have hread : readU32 (le32 n ++ rest) = .ok (wrap32 n, rest) := by
    unfold readU32
    rw [List.take_left' (length_le32 n), List.drop_left' (length_le32 n), fromLe32_le32]
  show (readU32 (le32 n ++ rest) >>= fun read => f read.1 read.2) = _
  rw [hread]
  rfl

theorem lift_bind {α β : Type} {x : Except DecodeError α} {a : α} (h : x = .ok a) (f : α → Reader β)
    (rest : Bytes) : (StateT.lift x >>= f) rest = f a rest := by
  rw [h]
  rfl

theorem decodeActivation_words (activation : Activation) :
    decodeActivation (activationWords activation).1 (activationWords activation).2 = .ok activation := by
  cases activation <;> rfl

/-- The quantization a precision has, read back from its words. -/
theorem decodePrecision_words (precision : Precision) (scales : Option Scales)
    (carried : scales.isSome = precision.quantization.isSome) :
    decodePrecision (precisionTag precision)
      (precision.quantization.getD ⟨0, 0, 0, ⟨0, 0⟩⟩) (scales.getD ⟨0, 0⟩) =
        .ok ⟨precision, scales, carried⟩ := by
  cases precision with
  | int8 q | int8Accumulator q =>
    obtain ⟨s, rfl⟩ := Option.isSome_iff_exists.mp carried
    rfl
  | _ =>
    obtain rfl := Option.not_isSome_iff_eq_none.mp (by rw [carried]; exact Bool.false_ne_true)
    rfl

/-- The descriptor with its padding spelled out, as the format spells it. -/
def Descriptor.explicit (d : Descriptor) : Descriptor where
  shape := { d.shape with padding := some (d.shape.padding.getD (0, 0)) }
  scales := d.scales
  carried := d.carried

theorem length_encode (d : Descriptor) (kernels : Kernels) :
    (encodeConvShapeV1 d kernels).length = payloadLen := rfl

/-- The zero points of a precision are `i32` values. -/
theorem Descriptor.Typed.quantization {d : Descriptor} (h : d.Typed) :
    let q := d.shape.precision.quantization.getD ⟨0, 0, 0, ⟨0, 0⟩⟩
    (IsI32 q.inputZeroPoint ∧ IsI32 q.outputZeroPoint ∧ IsI32 q.weightZeroPoint) ∧
      q.multiplier.scale < 2 ^ 32 ∧ q.multiplier.shift < 2 ^ 32 := by
  cases hq : d.shape.precision.quantization with
  | none =>
    have hzero : IsI32 0 := by constructor <;> decide
    exact ⟨⟨hzero, hzero, hzero⟩, by decide, by decide⟩
  | some q => exact ⟨h.zeroPoints q hq, h.multiplier q hq⟩

theorem Descriptor.Typed.scale_words {d : Descriptor} (h : d.Typed) :
    let scales := d.scales.getD ⟨0, 0⟩
    scales.input < 2 ^ 32 ∧ scales.weights < 2 ^ 32 := by
  cases hscales : d.scales with
  | none => exact ⟨by decide, by decide⟩
  | some scales => exact h.scales scales hscales

theorem Descriptor.Typed.activation_words {d : Descriptor} (h : d.Typed) :
    (activationWords d.shape.activation).1 < 2 ^ 32 ∧
      (activationWords d.shape.activation).2 < 2 ^ 32 := by
  cases hactivation : d.shape.activation with
  | none | relu => decide
  | clamped cmp => exact ⟨show (2 : Nat) < 2 ^ 32 by decide, h.cmp cmp hactivation⟩

theorem precisionTag_lt (precision : Precision) : precisionTag precision < 2 ^ 32 := by
  cases precision <;> simp [precisionTag]

theorem toNat_bne_zero (b : Bool) : (wrap32 b.toNat != 0) = b := by
  cases b <;> rfl

/-- The payload read back, field by field. -/
theorem read_encode {policy : PlanningPolicy} {d : Descriptor} {kernels : Kernels}
    (hs : d.shape.WellFormed policy) (ht : d.Typed) (hk : kernels.1 < 2 ^ 32 ∧ kernels.2 < 2 ^ 32) :
    readConvShape (encodeConvShapeV1 d kernels) = .ok ((d.explicit, kernels), []) := by
  have hwidth := hs.width_lt
  have hheight := hs.height_lt
  have hstride := hs.stride_lt
  have hin := hs.in_lt
  have hout := hs.out_lt
  obtain ⟨⟨hinput, houtput, hweight⟩, hscale, hshift⟩ := ht.quantization
  obtain ⟨hinputScale, hweightsScale⟩ := ht.scale_words
  obtain ⟨htag, hcmp⟩ := ht.activation_words
  have hpad : (d.shape.padding.getD (0, 0)).1 < 2 ^ 32 ∧ (d.shape.padding.getD (0, 0)).2 < 2 ^ 32 := by
    cases hpadding : d.shape.padding with
    | none => decide
    | some pad =>
      have hle := hs.pad_le pad hpadding
      simp only [Option.getD_some]
      omega
  have hversion : unlessErr (wrap32 conv2dV1FormatVersion = conv2dV1FormatVersion)
      (DecodeError.unsupportedVersion (wrap32 conv2dV1FormatVersion)) = .ok () := rfl
  unfold readConvShape encodeConvShapeV1 quantizationWords
  simp only [List.cons_append, List.nil_append, List.flatMap_cons, List.flatMap_nil, readU32_bind]
  rw [lift_bind hversion]
  simp only [readU32_bind]
  rw [wrap32_of_lt htag, wrap32_of_lt hcmp, lift_bind (decodeActivation_words _)]
  simp only [wrap32_of_lt (precisionTag_lt _), wrap32_of_lt (i32Bits_lt _), asI32_i32Bits hinput,
    asI32_i32Bits houtput, asI32_i32Bits hweight, wrap32_of_lt hscale, wrap32_of_lt hshift,
    wrap32_of_lt hinputScale, wrap32_of_lt hweightsScale, wrap32_of_lt hpad.1, wrap32_of_lt hpad.2,
    wrap32_of_lt hk.1, wrap32_of_lt hk.2, wrap32_of_lt hstride, wrap32_of_lt hin, wrap32_of_lt hout,
    wrap32_of_lt (hwidth.trans (by decide)), wrap32_of_lt (hheight.trans (by decide)), toNat_bne_zero]
  exact lift_bind (decodePrecision_words _ _ d.carried) _ _

theorem decode_encode {policy : PlanningPolicy} {d : Descriptor} {kernels : Kernels}
    (hs : d.shape.WellFormed policy) (ht : d.Typed) (hk : kernels.1 < 2 ^ 32 ∧ kernels.2 < 2 ^ 32) :
    decodeConvShapeV1 (encodeConvShapeV1 d kernels) = .ok (d.explicit, kernels) := by
  unfold decodeConvShapeV1
  simp only [bind_ok, pure_ok]
  exact ⟨(), if_pos (length_encode d kernels), _, read_encode hs ht hk, rfl⟩

/-! ### Meaning across the trip -/

variable {policy : PlanningPolicy} {d : Descriptor} {kernels : Kernels}

/-- The two descriptors agree in every field but the padding, and are programmed alike: the kernel the
planner derives is the same one or is refused alike, and the output extents are the same. -/
structure SameMeaning (d d' : Descriptor) (kernels : Kernels) : Prop where
  fields : d'.shape = { d.shape with padding := d'.shape.padding }
  scales : d'.scales = d.scales
  programming : d'.shape.tryKernelProgramming kernels = d.shape.tryKernelProgramming kernels
  extents : ∀ kernel, d.shape.tryKernelProgramming kernels = .ok kernel →
    d'.shape.outputWidth kernels = d.shape.outputWidth kernels ∧
      d'.shape.outputHeight kernels = d.shape.outputHeight kernels

/-- The descriptor comes back with its kernels and its meaning, and is written the same again. -/
structure RoundTrips (d : Descriptor) (kernels : Kernels) : Prop where
  decoded : ∃ d', decodeConvShapeV1 (encodeConvShapeV1 d kernels) = .ok (d', kernels) ∧
    SameMeaning d d' kernels
  encoded : ∀ d' kernels', decodeConvShapeV1 (encodeConvShapeV1 d kernels) = .ok (d', kernels') →
    encodeConvShapeV1 d' kernels' = encodeConvShapeV1 d kernels

/-- What the format needs of the padding: it is given, or the planner refuses the kernel whatever the
padding, or the kernel has no half. -/
def PaddingKept (padding : Option Padding) (kernels : Kernels) : Prop :=
  padding.isSome ∨ ¬ (backed kernels.1 ∧ backed kernels.2) ∨ kernels = (1, 1)

/-- A spelled-out descriptor is written like the one it spells out. -/
theorem encode_explicit (d : Descriptor) (kernels : Kernels) :
    encodeConvShapeV1 d.explicit kernels = encodeConvShapeV1 d kernels := rfl

/-- Whatever could be written is written the same again. -/
theorem reencode (hs : d.shape.WellFormed policy) (ht : d.Typed)
    (hk : kernels.1 < 2 ^ 32 ∧ kernels.2 < 2 ^ 32) {d' : Descriptor} {kernels' : Kernels}
    (h : decodeConvShapeV1 (encodeConvShapeV1 d kernels) = .ok (d', kernels')) :
    encodeConvShapeV1 d' kernels' = encodeConvShapeV1 d kernels := by
  obtain ⟨rfl, rfl⟩ := Prod.mk.inj (Except.ok.inj ((decode_encode hs ht hk).symm.trans h))
  exact encode_explicit d kernels

/-- A kernel within the vendor data is programmed where its padding is smaller than it. -/
theorem tryKernelProgramming_backed {padding : Option Padding}
    (hbacked : backed kernels.1 ∧ backed kernels.2)
    (hpad : (Conv.kernelProgramming kernels padding).padTop < kernels.1 ∧
      (Conv.kernelProgramming kernels padding).padLeft < kernels.2) :
    Conv.tryKernelProgramming kernels padding = .ok (Conv.kernelProgramming kernels padding) := by
  unfold tryKernelProgramming
  simp only [bind_ok, refuseUnless_ok, pure_ok, exists_const]
  exact ⟨hbacked, hpad, trivial⟩

/-- Any other kernel is refused alike, whatever its padding. -/
theorem tryKernelProgramming_unbacked (hbacked : ¬ (backed kernels.1 ∧ backed kernels.2))
    (padding padding' : Option Padding) :
    tryKernelProgramming kernels padding = tryKernelProgramming kernels padding' := by
  have hrefused : ∀ message : String,
      refuseUnless (backed kernels.1 ∧ backed kernels.2) .unvalidatedConfiguration message =
        .error (.refused ⟨.unvalidatedConfiguration, message⟩) := fun _ => if_neg hbacked
  unfold tryKernelProgramming kernelProgramming
  simp only [hrefused]
  rfl

/-- The planner derives the same kernel from the spelled-out padding exactly when it was kept. -/
theorem programming_explicit_iff : d.explicit.shape.tryKernelProgramming kernels =
    d.shape.tryKernelProgramming kernels ↔ PaddingKept d.shape.padding kernels := by
  unfold PaddingKept Shape.tryKernelProgramming Descriptor.explicit
  dsimp only
  cases d.shape.padding with
  | some pad => exact iff_of_true rfl (.inl rfl)
  | none =>
    by_cases hbacked : backed kernels.1 ∧ backed kernels.2
    · have hextents := hbacked
      simp only [backed, Bool.and_eq_true, decide_eq_true_eq] at hextents
      have hnone : tryKernelProgramming kernels none = _ := tryKernelProgramming_backed hbacked
        ⟨Nat.div_lt_self hextents.1.1 (by decide), Nat.div_lt_self hextents.2.1 (by decide)⟩
      have hzero : tryKernelProgramming kernels (some (0, 0)) = _ :=
        tryKernelProgramming_backed hbacked ⟨hextents.1.1, hextents.2.1⟩
      rw [Option.getD_none, hnone, hzero]
      simp only [kernelProgramming, Option.getD_some, Option.getD_none, Except.ok.injEq,
        KernelProgramming.mk.injEq, true_and, Option.isSome_none, Bool.false_eq_true, hbacked, not_true,
        false_or, Prod.ext_iff]
      omega
    · exact iff_of_true (tryKernelProgramming_unbacked hbacked _ _) (.inr (.inl hbacked))

/-- **A descriptor survives the trip exactly when its padding is given or its kernel has no half.** It
comes back field by field exactly when its padding is given. -/
theorem wire_round_trip_iff (hs : d.shape.Built policy) (ht : d.Typed)
    (hk : kernels.1 < 2 ^ 32 ∧ kernels.2 < 2 ^ 32) :
    (RoundTrips d kernels ↔ PaddingKept d.shape.padding kernels) ∧
      (decodeConvShapeV1 (encodeConvShapeV1 d kernels) = .ok (d, kernels) ↔
        d.shape.padding.isSome) := by
  have hround := decode_encode hs.wellFormed ht hk
  refine ⟨⟨fun h => ?_, fun hkept => ⟨⟨d.explicit, hround, ?_⟩, fun _ _ => reencode hs.wellFormed ht hk⟩⟩,
    ?_, ?_⟩
  · obtain ⟨d', hd', hmeaning⟩ := h.decoded
    obtain ⟨rfl, -⟩ := Prod.mk.inj (Except.ok.inj (hround.symm.trans hd'))
    exact programming_explicit_iff.mp hmeaning.programming
  · have hsame := programming_explicit_iff.mpr hkept
    refine ⟨rfl, rfl, hsame, fun kernel hkernel => ?_⟩
    have hprogram : d.explicit.shape.kernelProgramming kernels = d.shape.kernelProgramming kernels := by
      obtain ⟨-, -, hexplicit⟩ := tryKernelProgramming_ok.mp (hsame.trans hkernel)
      obtain ⟨-, -, hgiven⟩ := tryKernelProgramming_ok.mp hkernel
      exact hexplicit.trans hgiven.symm
    unfold Shape.outputWidth Shape.outputHeight
    rw [hprogram]
    exact ⟨rfl, rfl⟩
  · intro h
    obtain ⟨hd, -⟩ := Prod.mk.inj (Except.ok.inj (hround.symm.trans h))
    rw [← hd]
    rfl
  · intro hgiven
    obtain ⟨pad, hpad⟩ := Option.isSome_iff_exists.mp hgiven
    have hsame : d.explicit = d := by
      apply Descriptor.ext
      · unfold Descriptor.explicit
        dsimp only
        rw [hpad, Option.getD_some, ← hpad]
      · rfl
    rw [hround, hsame]

/-- A three-by-three convolution of an eight-by-eight image, its padding not given. -/
def implicitlyPadded : Descriptor where
  shape := { width := 8, height := 8, stride := 1, inChannels := 8, outChannels := 8
             precision := .fp16, padding := none, activation := .none, depthwise := false }
  scales := none
  carried := rfl

theorem implicitlyPadded_typed : implicitlyPadded.Typed where
  zeroPoints _ h := nomatch h
  multiplier _ h := nomatch h
  scales _ h := nomatch h
  cmp _ h := nomatch h

theorem implicitlyPadded_built : implicitlyPadded.shape.Built .default :=
  .withPrecision (by decide) (by decide) (by decide)
    (rfl : Shape.tryWithPrecision .default 8 8 1 8 8 .fp16 = _)

/-- It does not survive the trip; a pointwise kernel would. -/
theorem wire_round_trip_threeByThree :
    (RoundTrips implicitlyPadded (3, 3) ↔ PaddingKept none (3, 3)) ∧
      (decodeConvShapeV1 (encodeConvShapeV1 implicitlyPadded (3, 3)) = .ok (implicitlyPadded, (3, 3)) ↔
        (none : Option Padding).isSome) :=
  wire_round_trip_iff implicitlyPadded_built implicitlyPadded_typed (by decide)

/-- It comes back as a convolution with no padding: six outputs a side where it had eight. -/
theorem wire_round_trip_changes_extents :
    (∃ d, decodeConvShapeV1 (encodeConvShapeV1 implicitlyPadded (3, 3)) = .ok (d, (3, 3)) ∧
      d.shape.outputWidth (3, 3) = 6 ∧ implicitlyPadded.shape.outputWidth (3, 3) = 8) ∧
    ¬ ∀ (policy : PlanningPolicy) (d : Descriptor) (kernels : Kernels), d.shape.Built policy → d.Typed →
      kernels.1 < 2 ^ 32 ∧ kernels.2 < 2 ^ 32 → RoundTrips d kernels := by
  have hround : decodeConvShapeV1 (encodeConvShapeV1 implicitlyPadded (3, 3)) = _ :=
    decode_encode implicitlyPadded_built.wellFormed implicitlyPadded_typed (by decide)
  refine ⟨⟨_, hround, rfl, rfl⟩, fun h => ?_⟩
  obtain ⟨d, hd, hmeaning⟩ :=
    (h _ _ (3, 3) implicitlyPadded_built implicitlyPadded_typed (by decide)).decoded
  obtain ⟨rfl, -⟩ := Prod.mk.inj (Except.ok.inj (hround.symm.trans hd))
  exact absurd (programming_explicit_iff.mp hmeaning.programming) (by unfold PaddingKept; decide)

end IreeRocket.ExecutableFormat
