import IreeRocket.Lib.SpatialWindow
import IreeRocket.Plugin.ExpandConvInteger

/-!
# What ConvInteger computes

ONNX's ConvInteger is a sum over a window of the image, in which a tap outside contributes nothing. What
replaces it is read as torch reads it: `aten.constant_pad_nd` takes two amounts for each axis, the innermost
first, and a quantized convolution pads with the zero point of its input, as much before an axis as after
it. Both are taken as 32-bit integers.
-/

namespace IreeRocket.Plugin.ConvInteger

open Spatial

variable {n : Nat}

/-- The value in an `i32`. -/
def asI32 (value : Int) : Int := value.bmod (2 ^ 32)

/-- The entry of an axis in a list of attributes. -/
def axisOf (values : List Int) (i : Fin n) : Int := values.getD i 0

/-- The input channel that a channel of the weight is for. -/
def groupChannel (w : Image n Int) (groups m c : Int) : Int := m / (w.batch / groups) * w.channels + c

/-! ### ONNX -/

/-- The axis of a convolution. -/
def convAxis (x w : Image n Int) (strides dilations : List Int) (before after : Fin n → Int) (i : Fin n) :
    Axis where
  extent := x.extent i
  kernel := w.extent i
  stride := axisOf strides i
  dilation := axisOf dilations i
  before := before i
  after := after i

/-- The sum of `(x - x_zp)(w - w_zp)` over the window of each output. -/
def onnxConvInteger (x w : Image n Int) (xZero wZero : Int) (axes : Fin n → Axis) (group : Int) :
    Image n Int where
  batch := x.batch
  channels := w.batch
  extent i := (axes i).outExtent.toNat
  value b m o := asI32 <| windowSum w.channels w.extent fun c t =>
    let p i := (axes i).tap (o i) (t i)
    (if x.Inside p then x.value b (groupChannel w group m c) p - xZero else 0) *
      (w.value m c (fun i => t i) - wZero)

/-- The padding of `SAME_UPPER` and `SAME_LOWER`: there are `⌈extent / stride⌉` outputs, no less padding
gives as many, and what is odd is after the axis or before it. -/
structure SamePadded (upper : Bool) (a : Axis) : Prop where
  outputs : a.outExtent = Axis.sameExtent a.extent a.stride
  nonneg : 0 ≤ a.before ∧ 0 ≤ a.after
  least : ∀ before after, 0 ≤ before → 0 ≤ after →
    { a with before, after : Axis }.outExtent = Axis.sameExtent a.extent a.stride →
      a.before + a.after ≤ before + after
  surplus : a.after = a.before ∨ if upper then a.after = a.before + 1 else a.before = a.after + 1

/-- The padding that the attributes ask for. -/
def Padded (op : Operator) (axes : Fin n → Axis) : Prop :=
  match autoPadOf op with
  | "VALID" => ∀ i, (axes i).before = 0 ∧ (axes i).after = 0
  | "NOTSET" => ∀ i, (axes i).before = (getIntArrayAttr op "torch.onnx.pads").getD i 0 ∧
      (axes i).after = (getIntArrayAttr op "torch.onnx.pads").getD (n + i) 0
  | "SAME_UPPER" => ∀ i, SamePadded true (axes i)
  | "SAME_LOWER" => ∀ i, SamePadded false (axes i)
  | _ => False

/-- An image of a type's sizes. -/
structure Fits (sizes : List Int) (x : Image n Int) : Prop where
  rank : sizes.length = n + 2
  batch : sizes.getD 0 0 = unknownSize ∨ sizes.getD 0 0 = x.batch
  channels : sizes.getD 1 0 = unknownSize ∨ sizes.getD 1 0 = x.channels
  axes : ∀ i : Fin n, sizes.getD (2 + i) 0 = unknownSize ∨ sizes.getD (2 + i) 0 = x.extent i

/-- The operands of an operation in a run, as ONNX has them: of their types, with the kernel that
`kernel_shape` says, and strides and dilations that are positive. -/
structure Run (op : Operator) (n : Nat) where
  input : Image n Int
  weight : Image n Int
  item : Nat → Int
  inputFits : ∀ type sizes, op.operands[0]?.bind rankedOf = some (type, sizes) → Fits sizes input
  weightFits : ∀ type sizes, op.operands[1]?.bind rankedOf = some (type, sizes) → Fits sizes weight
  kernelShape : getIntArrayAttr op "torch.onnx.kernel_shape" ≠ [] →
    ∀ i : Fin n, axisOf (getIntArrayAttr op "torch.onnx.kernel_shape") i = weight.extent i
  kernelPos : ∀ i, 0 < weight.extent i
  stridesPos : ∀ stride ∈ getIntArrayAttr op "torch.onnx.strides", 0 < stride
  dilationsPos : ∀ dilation ∈ getIntArrayAttr op "torch.onnx.dilations", 0 < dilation

/-- A zero point, zero where the operand is absent. -/
def Run.zeroPoint {op : Operator} (run : Run op n) (index : Nat) : Int :=
  if index < op.operands.length then run.item index else 0

def Run.axes {op : Operator} (run : Run op n) (before after : Fin n → Int) : Fin n → Axis :=
  convAxis run.input run.weight (onesOr (getIntArrayAttr op "torch.onnx.strides") n)
    (onesOr (getIntArrayAttr op "torch.onnx.dilations") n) before after

/-- What the operation computes, for the padding of its axes. -/
def Run.result {op : Operator} (run : Run op n) (before after : Fin n → Int) : Image n Int :=
  onnxConvInteger run.input run.weight (run.zeroPoint 2) (run.zeroPoint 3) (run.axes before after)
    (getIntAttrOr op "torch.onnx.group" 1)

/-! ### Torch -/

/-- `aten.convolution` of quantized tensors. -/
def quantizedConvolution (x w : Image n Int) (xZero wZero : Int) (stride padding dilation : List Int)
    (groups : Int) : Image n Int where
  batch := x.batch
  channels := w.batch
  extent i := (convAxis x w stride dilation (axisOf padding) (axisOf padding) i).outExtent.toNat
  value b m o := asI32 <| windowSum w.channels w.extent fun c t =>
    let p i := (convAxis x w stride dilation (axisOf padding) (axisOf padding) i).tap (o i) (t i)
    (x.read xZero b (groupChannel w groups m c) p - xZero) * (w.value m c (fun i => t i) - wZero)

/-- The amounts of `aten.constant_pad_nd` for a spatial axis, in pairs from the innermost outwards. -/
def padBefore (pads : List Int) (i : Fin n) : Int := pads.getD (2 * (n - 1 - i)) 0

def padAfter (pads : List Int) (i : Fin n) : Int := pads.getD (2 * (n - 1 - i) + 1) 0

variable {op : Operator}

def Scalar.value (run : Run op n) : Scalar → Int
  | .constant value => value
  | .item operand => run.item operand

/-- The element type of a value that is not quantized. -/
def Value.dtype (op : Operator) : Value → Option DType
  | .operand index =>
    match op.operands[index]? with
    | some (.tensor type) => some type.dtype
    | _ => none
  | .constantPadNd _ dtype _ _ _ => some dtype
  | .intRepr type _ => some type.dtype
  | _ => none

/-- The sizes are the image's where they are known. An axis with more taken away than there is is
empty. -/
structure Sized (sizes : List Int) (x : Image n Int) : Prop where
  rank : sizes.length = n + 2
  batch : sizes.getD 0 0 = unknownSize ∨ sizes.getD 0 0 = x.batch
  channels : sizes.getD 1 0 = unknownSize ∨ sizes.getD 1 0 = x.channels
  axes : ∀ i : Fin n, sizes.getD (2 + i) 0 = unknownSize ∨ (sizes.getD (2 + i) 0).toNat = x.extent i

instance (sizes : List Int) (x : Image n Int) : Decidable (Sized sizes x) :=
  decidable_of_iff (_ ∧ _ ∧ _ ∧ _)
    ⟨fun ⟨rank, batch, channels, axes⟩ => ⟨rank, batch, channels, axes⟩,
      fun h => ⟨h.rank, h.batch, h.channels, h.axes⟩⟩

/-- A tensor with its zero point, where it is of the type it is emitted with: padding keeps the element
type and quantization has the one of its input, both with the sizes of their result; the convolution
accumulates in 32 bits, and it and what replaces the operation have the sizes and the type of the
operation's own result. Padding is of the spatial axes. -/
def Value.eval (run : Run op n) : Value → Option (Image n Int × Int)
  | .operand 0 => some (run.input, 0)
  | .operand 1 => some (run.weight, 0)
  | .operand _ => none
  | .constantPadNd sizes dtype input pads fill => do
    let (x, zero) ← input.eval run
    guard (pads.length = 2 * n ∧ input.dtype op = some dtype)
    let padded := x.pad (padBefore pads) (padAfter pads) (fill.value run)
    guard (Sized sizes padded)
    some (padded, zero)
  | .makePerTensorQuantizedTensor sizes dtype input zeroPoint => do
    let (x, _) ← input.eval run
    guard ((input.dtype op).bind getQuantizedDtype = some dtype ∧ Sized sizes x)
    some (x, zeroPoint.value run)
  | .convolution sizes dtype input weight stride padding dilation _ groups => do
    let (x, xZero) ← input.eval run
    let (w, wZero) ← weight.eval run
    guard (dtype = .qint32 ∧ (op.results[0]?.bind rankedOf).map Prod.snd = some sizes)
    some (quantizedConvolution x w xZero wZero stride padding dilation groups, 0)
  | .intRepr type input => do
    let (x, _) ← input.eval run
    guard (op.results[0]? = some (.tensor type))
    some (x, 0)

/-- The same extents, and the same value at every position. -/
structure SameImage (x y : Image n Int) : Prop where
  batch : x.batch = y.batch
  channels : x.channels = y.channels
  extent : x.extent = y.extent
  value : ∀ b c p, x.Inside p → x.value b c p = y.value b c p

theorem SameImage.refl (x : Image n Int) : SameImage x x := ⟨rfl, rfl, rfl, fun _ _ _ _ => rfl⟩

/-! ### Types -/

theorem Fits.sized {sizes : List Int} {x : Image n Int} (h : Fits sizes x) : Sized sizes x where
  rank := h.rank
  batch := h.batch
  channels := h.channels
  axes i := (h.axes i).imp_right fun hsize => by rw [hsize, Int.toNat_natCast]

theorem rankedOf_some {value : ValueType} {type : TensorType} {sizes : List Int}
    (h : rankedOf value = some (type, sizes)) : value = .tensor type ∧ type.sizes = some sizes := by
  cases value with
  | tensor other =>
    obtain ⟨known, hknown, h⟩ := Option.map_eq_some_iff.mp h
    obtain ⟨rfl, rfl⟩ := Prod.mk.inj h
    exact ⟨rfl, hknown⟩
  | other => cases h

/-- The element type of an operand that is ranked. -/
theorem dtype_operand {index : Nat} {type : TensorType} {sizes : List Int}
    (h : op.operands[index]?.bind rankedOf = some (type, sizes)) :
    (Value.operand index).dtype op = some type.dtype := by
  obtain ⟨value, hvalue, hranked⟩ := Option.bind_eq_some_iff.mp h
  rw [(rankedOf_some hranked).1] at hvalue
  simp only [Value.dtype, hvalue]

theorem dtype_constantPadNd (sizes : List Int) (dtype : DType) (input : Value) (pads : List Int)
    (fill : Scalar) : (Value.constantPadNd sizes dtype input pads fill).dtype op = some dtype := rfl

/-! ### The two ways of padding -/

section Padding

variable {x w : Image n Int} {xZero wZero : Int} {strides dilations : List Int} {before after : Fin n → Int}
  {groups : Int}

/-- **Padding by the convolution** is that of ONNX where it is the same on both sides. -/
theorem convolution_symmetric (padding : List Int) (hbefore : axisOf padding = before)
    (hafter : axisOf padding = after) :
    quantizedConvolution x w xZero wZero strides padding dilations groups =
      onnxConvInteger x w xZero wZero (convAxis x w strides dilations before after) groups := by
  subst hbefore
  subst hafter
  simp only [quantizedConvolution, onnxConvInteger, Image.read_sub]

/-- **Padding by the zero point beforehand** is that of ONNX on any sides. An output reads its taps of the
padded image. -/
theorem convolution_padded (zeros : List Int) (hzeros : ∀ i : Fin n, axisOf zeros i = 0)
    (hstride : ∀ i : Fin n, 0 < axisOf strides i) (hdilation : ∀ i : Fin n, 0 < axisOf dilations i)
    (hkernel : ∀ i, 0 < w.extent i) :
    SameImage (quantizedConvolution (x.pad before after xZero) w xZero wZero strides zeros dilations groups)
      (onnxConvInteger x w xZero wZero (convAxis x w strides dilations before after) groups) := by
  have haxis : ∀ i, convAxis (x.pad before after xZero) w strides dilations (axisOf zeros) (axisOf zeros) i =
      (convAxis x w strides dilations before after i).padded := fun i => by
    simp only [convAxis, Axis.padded, Image.pad, hzeros]
  have hreach : ∀ i, 0 < Axis.reach (w.extent i) (axisOf dilations i) := fun i => by
    have hk : 0 ≤ (w.extent i - 1 : Int) * axisOf dilations i :=
      mul_nonneg (by have := hkernel i; omega) (hdilation i).le
    unfold Axis.reach
    omega
  have hextent : ∀ i, (convAxis (x.pad before after xZero) w strides dilations (axisOf zeros)
      (axisOf zeros) i).outExtent.toNat = (convAxis x w strides dilations before after i).outExtent.toNat :=
    fun i => by rw [haxis, Axis.outExtent_padded (hstride i) (hreach i)]
  refine ⟨rfl, rfl, funext hextent, fun b m o ho => ?_⟩
  simp only [quantizedConvolution, onnxConvInteger]
  refine congrArg asI32 (windowSum_congr fun c t => ?_)
  have hinside : (x.pad before after xZero).Inside fun i => (convAxis (x.pad before after xZero) w strides
      dilations (axisOf zeros) (axisOf zeros) i).tap (o i) (t i) := fun i => by
    obtain ⟨hlow, hhigh⟩ := ho i
    have hcount : o i < (convAxis x w strides dilations before after i).outExtent := by
      have := hextent i
      simp only [quantizedConvolution] at hhigh
      omega
    have htap := Axis.tap_inside (hstride i) (hdilation i).le hlow hcount (Int.natCast_nonneg (t i))
      (Int.ofNat_lt.mpr (t i).isLt)
    rw [← haxis] at htap
    exact htap
  have htap : (fun i => (convAxis (x.pad before after xZero) w strides dilations (axisOf zeros)
      (axisOf zeros) i).tap (o i) (t i) - before i) =
      fun i => (convAxis x w strides dilations before after i).tap (o i) (t i) :=
    funext fun i => by rw [haxis]; exact Axis.tap_padded _ _ _
  rw [x.read_pad before after xZero b _ hinside, htap, Image.read_sub]

end Padding

end IreeRocket.Plugin.ConvInteger
