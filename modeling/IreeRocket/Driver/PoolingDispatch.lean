import IreeRocket.Driver.Executables
import IreeRocket.Hal.PoolingEmission

/-!
# Dispatching a pool

The dispatch path resolves a pooling shape, then plans and emits it with no guard against a panic. What
`resolveShape` accepts is a valid shape, no more: whether it can be emitted is `Emittable`, which nothing
on the path asks (`dispatch_emits_iff`).
-/

namespace IreeRocket.Driver

open Pooling

/-- A resolved pool is valid. -/
theorem PoolingExecutable.resolveShape_valid {executable : PoolingExecutable} {constants : Bytes}
    {s : Pooling.PoolingShape} (h : executable.resolveShape constants = .ok s) : s.Valid := by
  unfold PoolingExecutable.resolveShape at h
  simp only [bind_ok, mapError_ok, validate_ok, pure_ok] at h
  obtain ⟨-, -, -, -, shape, -, -, hvalid, rfl⟩ := h
  exact hvalid

/-- **A resolved pool is emitted exactly when its tiles fit the direct input width, its edge tiles reach
the image, and an fp16 average has no one-tap axis.** -/
theorem dispatch_emits_iff {executable : PoolingExecutable} {constants : Bytes} {s : Pooling.PoolingShape}
    {bufs : PoolingBuffers} (hresolve : executable.resolveShape constants = .ok s)
    (haddr : AddressesFit s bufs) (halign : 16 ∣ bufs.outputAddr) :
    (∃ programs, emitPooling s bufs = .ok programs) ↔ Emittable s :=
  emits_iff (PoolingExecutable.resolveShape_valid hresolve) haddr halign

/-- A max pool whose windows are as wide as its stride. -/
def touchingWindows (columns : Nat) : Pooling.PoolingShape := {
  inputWidth := columns * 3, inputHeight := 3, inputChannels := 8, outputWidth := columns
  outputHeight := 1, outputChannels := 8, precision := .fp16, kernelWidth := 3, kernelHeight := 3
  strideX := 3, strideY := 3, method := .max, padLeft := 0, padTop := 0, padRight := 0, padBottom := 0
  padValue := 0xfc00 }

/-- Forty windows read 120 columns, which one tile may. -/
theorem dispatch_emits_forty :
    (∃ programs, emitPooling (touchingWindows 40) ⟨4096, 8192⟩ = .ok programs) := by
  have hresolve : PoolingExecutable.resolveShape ⟨touchingWindows 40, [], false, false⟩ [] =
      .ok (touchingWindows 40) := by decide +kernel
  have haddr : AddressesFit (touchingWindows 40) ⟨4096, 8192⟩ := by decide +kernel
  exact (dispatch_emits_iff hresolve haddr (by decide)).mpr
    ⟨by decide +kernel, by decide +kernel, by decide +kernel⟩

/-- Sixty-four windows are one tile by their number, of 192 columns: the planner panics. -/
theorem dispatch_panics_on_stride : ¬ ∀ (executable : PoolingExecutable) (constants : Bytes)
    (s : Pooling.PoolingShape) (bufs : PoolingBuffers), executable.resolveShape constants = .ok s →
      s.validate = .ok () → AddressesFit s bufs → 16 ∣ bufs.inputAddr → 16 ∣ bufs.outputAddr →
        ∃ programs, emitPooling s bufs = .ok programs := by
  intro h
  have hresolve : PoolingExecutable.resolveShape ⟨touchingWindows 64, [], false, false⟩ [] =
      .ok (touchingWindows 64) := by decide +kernel
  obtain ⟨programs, hprograms⟩ := h _ _ _ ⟨4096, 8192⟩ hresolve (by decide +kernel)
    (by decide +kernel) (by decide) (by decide)
  have hpanics : emitPooling (touchingWindows 64) ⟨4096, 8192⟩ =
      .error (.panicked ("pooling tile exceeds the capture-derived direct width limits: PoolingTile " ++
        "\x7b input_first: 0, input_width: 192, output_first: 0, output_width: 64, pad_left: 0, " ++
        "pad_right: 0 \x7d")) := by
    decide +kernel
  rw [hpanics] at hprograms
  cases hprograms

end IreeRocket.Driver
