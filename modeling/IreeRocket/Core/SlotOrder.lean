import IreeRocket.Core.PackerWrites
import IreeRocket.Lib.Nest

/-!
# The order of the coefficient slots

`visit_slots` is a nest of six loops with two guards. Its slots are the guarded index vectors of the
nest, in lexicographic order, and they number the padded extents' product. The slots that name an
element of the filter are in bijection with the elements.
-/

namespace IreeRocket.Weights

open Conv Nest

/-- A logical coefficient of an HWCF filter. -/
structure Coefficient where
  y : Nat
  x : Nat
  ci : Nat
  co : Nat
  deriving DecidableEq, Repr

namespace Coefficient

/-- It is one of the filter's. -/
structure Inside (c : Coefficient) (kh kw cin cout : Nat) : Prop where
  y_lt : c.y < kh
  x_lt : c.x < kw
  ci_lt : c.ci < cin
  co_lt : c.co < cout

/-- Its place in the dense filter. -/
def element (c : Coefficient) (kw cin cout : Nat) : Nat :=
  ((c.y * kw + c.x) * cin + c.ci) * cout + c.co

end Coefficient

theorem place_div {b i j : Nat} (hj : j < b) : (i * b + j) / b = i := by
  rw [Nat.mul_comm, Nat.mul_add_div (by omega), Nat.div_eq_of_lt hj, Nat.add_zero]

theorem place_mod {b i j : Nat} (hj : j < b) : (i * b + j) % b = j := by
  rw [Nat.mul_comm, Nat.mul_add_mod, Nat.mod_eq_of_lt hj]

/-- Two places of a nest of two are equal only index by index. -/
theorem place_inj {b i i' j j' : Nat} (hj : j < b) (hj' : j' < b) (h : i * b + j = i' * b + j') :
    i = i' ∧ j = j' := by
  have hdiv := place_div (i := i) hj
  have hmod := place_mod (i := i) hj
  rw [h] at hdiv hmod
  exact ⟨hdiv.symm.trans (place_div hj'), hmod.symm.trans (place_mod hj')⟩

/-- Two coefficients of a filter have two places. -/
theorem Coefficient.element_inj {c c' : Coefficient} {kh kw cin cout : Nat}
    (hc : c.Inside kh kw cin cout) (hc' : c'.Inside kh kw cin cout)
    (h : c.element kw cin cout = c'.element kw cin cout) : c = c' := by
  obtain ⟨houter, hco⟩ := place_inj hc.co_lt hc'.co_lt h
  obtain ⟨htap, hci⟩ := place_inj hc.ci_lt hc'.ci_lt houter
  obtain ⟨hy, hx⟩ := place_inj hc.x_lt hc'.x_lt htap
  cases c
  cases c'
  simp_all

namespace WeightLayout

variable (layout : WeightLayout)

/-- The guards of the nest. -/
def guards : List Nat → Bool
  | [outputBlock, inputGroup, _, _, outputLane, inputLane] =>
    outputBlock * layout.outputBlockChannels + outputLane < layout.programmedOutputChannels &&
      inputGroup * layout.inputGroupChannels + inputLane < layout.paddedInputChannels
  | _ => false

/-- The visited index vectors `[output_block, input_group, filter_y, filter_x, output_lane,
input_lane]`. -/
def coordinates (kh kw : Nat) : List (List Nat) :=
  (nest [layout.outputBlocks, layout.inputGroups, kh, kw, layout.outputBlockChannels,
    layout.inputGroupChannels]).filter layout.guards

/-- The slot at an index vector. -/
def slotAt (kw cin cout : Nat) : List Nat → Option Nat × Nat
  | [outputBlock, inputGroup, y, x, outputLane, inputLane] =>
    let co := outputBlock * layout.outputBlockChannels + outputLane
    let ci := inputGroup * layout.inputGroupChannels + inputLane
    (if co < cout ∧ ci < cin then some (Coefficient.element ⟨y, x, ci, co⟩ kw cin cout) else none, co)
  | _ => (none, 0)

/-- The slots are the guarded index vectors of the nest, in its order. -/
theorem slots_eq (kh kw cin cout : Nat) :
    layout.slots kh kw cin cout = (layout.coordinates kh kw).map (layout.slotAt kw cin cout) := by
  unfold slots coordinates
  simp only [nest, List.filter_flatMap, List.map_flatMap, List.map_cons, List.map_nil]
  apply congrArg (List.flatMap · _)
  funext outputBlock
  apply congrArg (List.flatMap · _)
  funext inputGroup
  apply congrArg (List.flatMap · _)
  funext y
  apply congrArg (List.flatMap · _)
  funext x
  apply congrArg (List.flatMap · _)
  funext outputLane
  rw [flatMap_guard]
  by_cases hprogrammed : outputBlock * layout.outputBlockChannels + outputLane <
      layout.programmedOutputChannels
  · rw [if_neg (by omega)]
    apply congrArg (List.filterMap · _)
    funext inputLane
    by_cases hpadded : inputGroup * layout.inputGroupChannels + inputLane < layout.paddedInputChannels
    · have hguards : layout.guards [outputBlock, inputGroup, y, x, outputLane, inputLane] = true := by
        simp [guards, hprogrammed, hpadded]
      rw [if_neg (by omega), if_pos hguards]
      rfl
    · rw [if_pos (by omega), if_neg (by simp [guards, hpadded])]
  · rw [if_pos (by omega)]
    exact (List.filterMap_eq_nil_iff.mpr fun inputLane _ =>
      if_neg (by simp [guards, hprogrammed])).symm

/-- The lanes of enough blocks that lie below a limit are as many as the limit. -/
theorem sum_lanes_eq {lanes : Nat} (hlanes : 0 < lanes) (limit : Nat) :
    ((List.range (limit ⌈/⌉ lanes)).map fun block => (List.range lanes).countP fun lane =>
      decide (block * lanes + lane < limit)).sum = limit := by
  have hround := le_ceilDiv_mul limit hlanes
  rw [sum_lanes, min_eq_right hround]

/-! ### The walk with its counter -/

/-- One call of the visitor, and `slot += 1`. -/
def visitOne {σ : Type} (visit : σ → Nat → Option Nat × Nat → σ) (walk : Nat × σ)
    (slot : Option Nat × Nat) : Nat × σ :=
  (walk.1 + 1, visit walk.2 walk.1 slot)

/-- `visit_slots`: the counter `slot` and the visitor's state go through the loops. -/
def visitSlots {σ : Type} (kh kw cin cout : Nat) (visit : σ → Nat → Option Nat × Nat → σ)
    (state : σ) : Nat × σ :=
  (List.range layout.outputBlocks).foldl (fun walk outputBlock =>
    (List.range layout.inputGroups).foldl (fun walk inputGroup =>
      (List.range kh).foldl (fun walk filterY =>
        (List.range kw).foldl (fun walk filterX =>
          (List.range layout.outputBlockChannels).foldl (fun walk outputLane =>
            let outputChannel := outputBlock * layout.outputBlockChannels + outputLane
            if outputChannel ≥ layout.programmedOutputChannels then walk
            else (List.range layout.inputGroupChannels).foldl (fun walk inputLane =>
              let inputChannel := inputGroup * layout.inputGroupChannels + inputLane
              if inputChannel ≥ layout.paddedInputChannels then walk
              else
                let source :=
                  if outputChannel < cout ∧ inputChannel < cin then
                    some (((filterY * kw + filterX) * cin + inputChannel) * cout + outputChannel)
                  else none
                visitOne visit walk (source, outputChannel)) walk) walk) walk) walk) walk) (0, state)

theorem foldl_visitOne {σ : Type} (visit : σ → Nat → Option Nat × Nat → σ)
    (slots : List (Option Nat × Nat)) (first : Nat) (state : σ) :
    slots.foldl (visitOne visit) (first, state) =
      (first + slots.length,
        (slots.zipIdx first).foldl (fun state numbered => visit state numbered.2 numbered.1) state) := by
  induction slots generalizing first state with
  | nil => rfl
  | cons slot slots ih =>
    rw [List.foldl_cons, visitOne, ih, List.zipIdx_cons, List.foldl_cons, List.length_cons]
    congr 1
    omega

/-- **The walk numbers the slots from zero**, in their order. -/
theorem visitSlots_eq {σ : Type} (kh kw cin cout : Nat) (visit : σ → Nat → Option Nat × Nat → σ)
    (state : σ) : layout.visitSlots kh kw cin cout visit state =
      ((layout.slots kh kw cin cout).length, (layout.slots kh kw cin cout).zipIdx.foldl
        (fun state numbered => visit state numbered.2 numbered.1) state) := by
  have hwalk : layout.visitSlots kh kw cin cout visit state =
      (layout.slots kh kw cin cout).foldl (visitOne visit) (0, state) := by
    unfold visitSlots slots
    rw [List.foldl_flatMap]
    apply congrArg (List.foldl · _ _)
    funext walk outputBlock
    rw [List.foldl_flatMap]
    apply congrArg (List.foldl · _ _)
    funext walk inputGroup
    rw [List.foldl_flatMap]
    apply congrArg (List.foldl · _ _)
    funext walk filterY
    rw [List.foldl_flatMap]
    apply congrArg (List.foldl · _ _)
    funext walk filterX
    rw [List.foldl_flatMap]
    apply congrArg (List.foldl · _ _)
    funext walk outputLane
    dsimp only
    by_cases hprogrammed : outputBlock * layout.outputBlockChannels + outputLane ≥
        layout.programmedOutputChannels
    · rw [if_pos hprogrammed, if_pos hprogrammed]
      rfl
    · rw [if_neg hprogrammed, if_neg hprogrammed, List.foldl_filterMap]
      apply congrArg (List.foldl · _ _)
      funext walk inputLane
      by_cases hpadded : inputGroup * layout.inputGroupChannels + inputLane ≥ layout.paddedInputChannels
      · rw [if_pos hpadded, if_pos hpadded]
      · rw [if_neg hpadded, if_neg hpadded]
  rw [hwalk, foldl_visitOne, Nat.zero_add]

variable {layout}

/-- What a layout is made of. -/
theorem new_ok {cin padded bits : Nat} (h : WeightLayout.new cin padded bits = .ok layout) :
    (cin ≠ 0 ∧ padded ≠ 0 ∧ bits ∈ [4, 8, 16, 32]) ∧
      0 < layout.outputBlockChannels ∧ 0 < layout.inputGroupChannels ∧
      cin ≤ layout.paddedInputChannels ∧ padded ≤ layout.programmedOutputChannels ∧
      layout.inputGroups = layout.paddedInputChannels ⌈/⌉ layout.inputGroupChannels ∧
      layout.outputBlocks = layout.programmedOutputChannels ⌈/⌉ layout.outputBlockChannels ∧
      8 ∣ layout.paddedInputChannels * bits := by
  unfold WeightLayout.new at h
  simp only [bind_ok, unlessErr_ok, pure_ok, exists_const] at h
  obtain ⟨hshape, rfl⟩ := h
  obtain ⟨-, -, hbits⟩ := id hshape
  simp only [List.mem_cons, List.not_mem_nil, or_false] at hbits
  refine ⟨hshape, ?_, ?_, ?_, ?_, rfl, rfl, ?_⟩
  · rcases hbits with rfl | rfl | rfl | rfl <;>
      simp [weightAtomicBytes, tf32WeightOutputBlockChannels]
  · rcases hbits with rfl | rfl | rfl | rfl <;>
      simp [weightInputGroupChannels, tf32WeightInputGroupChannels]
  · have hround : ∀ {atom : Nat}, 0 < atom → cin ≤ (cin ⌈/⌉ atom) * atom :=
      fun hatom => le_ceilDiv_mul cin hatom
    rcases hbits with rfl | rfl | rfl | rfl
    · exact hround (by decide)
    · exact hround (by decide)
    · refine (hround (show 0 < featureAtomBytes * 8 / 16 by decide)).trans
        (Nat.mul_le_mul_right _ ?_)
      split_ifs <;> omega
    · exact hround (by decide)
  · dsimp only
    split_ifs
    · exact le_nextMultipleOf padded (by decide)
    · exact le_rfl
  · have hdvd : ∀ atoms : Nat, 8 ∣ atoms * (featureAtomBytes * 8 / bits) * bits := by
      intro atoms
      unfold featureAtomBytes
      rcases hbits with rfl | rfl | rfl | rfl <;> omega
    exact hdvd _

/-- **The slots of a filter are as many as its padded extents.** -/
theorem length_slots_eq {cin padded bits : Nat} (h : WeightLayout.new cin padded bits = .ok layout)
    (kh kw cout : Nat) : (layout.slots kh kw cin cout).length =
      kh * kw * layout.paddedInputChannels * layout.programmedOutputChannels := by
  obtain ⟨-, hblock, hgroup, -, -, hgroups_eq, hblocks_eq, -⟩ := new_ok h
  have hblocks : ((List.range layout.outputBlocks).map layout.blockLanes).sum =
      layout.programmedOutputChannels := by
    rw [hblocks_eq]
    exact sum_lanes_eq hblock _
  have hgroups : ((List.range layout.inputGroups).map layout.groupLanes).sum =
      layout.paddedInputChannels := by
    rw [hgroups_eq]
    exact sum_lanes_eq hgroup _
  rw [length_slots_lanes, hgroups, hblocks]

/-! ### Slots and coefficients -/

theorem mem_coordinates {kh kw : Nat} {v : List Nat} :
    v ∈ layout.coordinates kh kw ↔ ∃ outputBlock inputGroup y x outputLane inputLane,
      v = [outputBlock, inputGroup, y, x, outputLane, inputLane] ∧
      outputBlock < layout.outputBlocks ∧ inputGroup < layout.inputGroups ∧ y < kh ∧ x < kw ∧
      outputLane < layout.outputBlockChannels ∧ inputLane < layout.inputGroupChannels ∧
      outputBlock * layout.outputBlockChannels + outputLane < layout.programmedOutputChannels ∧
      inputGroup * layout.inputGroupChannels + inputLane < layout.paddedInputChannels := by
  unfold coordinates
  rw [List.mem_filter, mem_nest]
  constructor
  · rintro ⟨hbounds, hguards⟩
    rcases hbounds with _ | ⟨h1, _ | ⟨h2, _ | ⟨h3, _ | ⟨h4, _ | ⟨h5, _ | ⟨h6, _ | _⟩⟩⟩⟩⟩⟩
    simp only [guards, Bool.and_eq_true, decide_eq_true_eq] at hguards
    exact ⟨_, _, _, _, _, _, rfl, h1, h2, h3, h4, h5, h6, hguards.1, hguards.2⟩
  · rintro ⟨ob, ig, y, x, ol, il, rfl, h1, h2, h3, h4, h5, h6, hprogrammed, hpadded⟩
    exact ⟨.cons h1 (.cons h2 (.cons h3 (.cons h4 (.cons h5 (.cons h6 .nil))))),
      by simp [guards, hprogrammed, hpadded]⟩

/-- The index vector of a coefficient. -/
def coordinatesOf (layout : WeightLayout) (c : Coefficient) : List Nat :=
  [c.co / layout.outputBlockChannels, c.ci / layout.inputGroupChannels, c.y, c.x,
    c.co % layout.outputBlockChannels, c.ci % layout.inputGroupChannels]

/-- The block or group of a channel below a limit is one of those that reach the limit. -/
theorem div_lt_ceilDiv {channel limit lanes : Nat} (hlanes : 0 < lanes) (h : channel < limit) :
    channel / lanes < limit ⌈/⌉ lanes :=
  (Nat.div_lt_iff_lt_mul hlanes).mpr (h.trans_le (le_ceilDiv_mul limit hlanes))

/-- A slot that names an element names one of the filter's coefficients, of its own channel. -/
theorem exists_coefficient {kh kw cin cout : Nat} {slot : Option Nat × Nat} {source : Nat}
    (h : slot ∈ layout.slots kh kw cin cout) (hsource : slot.1 = some source) :
    ∃ c : Coefficient, c.Inside kh kw cin cout ∧ c.element kw cin cout = source ∧ slot.2 = c.co := by
  rw [slots_eq] at h
  obtain ⟨v, hv, rfl⟩ := List.mem_map.mp h
  obtain ⟨ob, ig, y, x, ol, il, rfl, -, -, hy, hx, -, -, -, -⟩ := mem_coordinates.mp hv
  simp only [slotAt] at hsource ⊢
  split_ifs at hsource with hlogical
  exact ⟨_, ⟨hy, hx, hlogical.2, hlogical.1⟩, Option.some.inj hsource, rfl⟩

/-- **Each coefficient has one slot.** -/
theorem countP_coefficient {kh kw cin cout padded bits : Nat}
    (h : WeightLayout.new cin padded bits = .ok layout) (hcout : cout ≤ padded) {c : Coefficient}
    (hc : c.Inside kh kw cin cout) :
    (layout.slots kh kw cin cout).countP
      (fun slot => decide (slot.1 = some (c.element kw cin cout))) = 1 := by
  obtain ⟨-, hblock, hgroup, hcin, hpadded, hgroups_eq, hblocks_eq, -⟩ := new_ok h
  have hco := Nat.div_add_mod' c.co layout.outputBlockChannels
  have hci := Nat.div_add_mod' c.ci layout.inputGroupChannels
  have hprogrammed : c.co < layout.programmedOutputChannels := hc.co_lt.trans_le (hcout.trans hpadded)
  have hinput : c.ci < layout.paddedInputChannels := hc.ci_lt.trans_le hcin
  rw [slots_eq]
  apply countP_map_eq_one (nodup_filter_nest _ _) (a := layout.coordinatesOf c)
  · exact mem_coordinates.mpr ⟨_, _, _, _, _, _, rfl,
      hblocks_eq ▸ div_lt_ceilDiv hblock hprogrammed, hgroups_eq ▸ div_lt_ceilDiv hgroup hinput,
      hc.y_lt, hc.x_lt, Nat.mod_lt _ hblock, Nat.mod_lt _ hgroup, hco.trans_lt hprogrammed,
      hci.trans_lt hinput⟩
  · simp only [coordinatesOf, slotAt, hco, hci]
    rw [if_pos ⟨hc.co_lt, hc.ci_lt⟩]
    exact decide_eq_true rfl
  · intro v hv hsource
    obtain ⟨ob, ig, y, x, ol, il, rfl, -, -, hy, hx, hol, hil, -, -⟩ := mem_coordinates.mp hv
    have hsource := of_decide_eq_true hsource
    simp only [slotAt] at hsource
    split_ifs at hsource with hlogical
    obtain rfl : Coefficient.mk y x (ig * layout.inputGroupChannels + il)
        (ob * layout.outputBlockChannels + ol) = c :=
      Coefficient.element_inj ⟨hy, hx, hlogical.2, hlogical.1⟩ hc (Option.some.inj hsource)
    simp only [coordinatesOf, place_div hol, place_mod hol, place_div hil, place_mod hil]

end WeightLayout

end IreeRocket.Weights
