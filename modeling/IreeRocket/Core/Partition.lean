import IreeRocket.Core.PlanSpec

/-!
# The tiles partition the output

`Accepted policy shape kernels plan` is the domain of the planner's guarantees: the shape came out of
the constructors and one of the two planning entries returned the plan. The output rectangles of
such a plan's tiles split the output image exactly.
-/

namespace IreeRocket.Conv

open Segments

/-- One of the planner's entries returned `plan` for a constructed shape. -/
inductive Accepted (policy : PlanningPolicy) (shape : Shape) (kernels : Kernels) (plan : ConvPlan) :
    Prop
  | tryNew (hshape : shape.Built policy) (h : ConvPlan.tryNew policy shape kernels = .ok plan)
  | tryWithCbufBanks (hshape : shape.Built policy) (dataBanks weightBanks : Nat)
      (h : ConvPlan.tryWithCbufBanks shape kernels dataBanks weightBanks = .ok plan)

theorem Accepted.wellFormed {policy : PlanningPolicy} {shape : Shape} {kernels : Kernels}
    {plan : ConvPlan} (h : Accepted policy shape kernels plan) : shape.WellFormed policy := by
  cases h with
  | tryNew hshape _ => exact hshape.wellFormed
  | tryWithCbufBanks hshape _ _ _ => exact hshape.wellFormed

theorem Accepted.planned {policy : PlanningPolicy} {shape : Shape} {kernels : Kernels}
    {plan : ConvPlan} (h : Accepted policy shape kernels plan) : Planned shape kernels plan := by
  cases h with
  | tryNew _ h => exact planned_of_tryNew h
  | tryWithCbufBanks _ _ _ h => exact planned_of_tryWithCbufBanks h

/-- The output pixel `(r, c)` lies in the tile's rectangle. -/
def Tile2D.Holds (t : Tile2D) (r c : Nat) : Prop :=
  Within t.rows.outFirst t.rows.outRows r ∧ Within t.columns.outFirst t.columns.outCols c

instance (t : Tile2D) (r c : Nat) : Decidable (t.Holds r c) :=
  inferInstanceAs (Decidable (_ ∧ _))

/-- Every output pixel lies in exactly one tile of a grid. -/
theorem Grid.countP_holds {shape : Shape} {kernels : Kernels} {dataBanks : Nat}
    {cols : List ColumnTile} {tiles : List Tile2D} (h : Grid shape kernels dataBanks cols tiles)
    {r c : Nat} (hr : r < shape.outputHeight kernels) (hc : c < shape.outputWidth kernels) :
    tiles.countP (fun t => decide (t.Holds r c)) = 1 :=
  h.stacked.countP_eq_one Tile2D.rows Tile2D.columns (fun _ _ => rfl) (fun _ _ => rfl) h.colCovers
    hr hc

/-- Every tile of a grid is nonempty and lies inside the image. -/
theorem Grid.mem_inside {shape : Shape} {kernels : Kernels} {dataBanks : Nat}
    {cols : List ColumnTile} {tiles : List Tile2D} (h : Grid shape kernels dataBanks cols tiles)
    {t : Tile2D} (ht : t ∈ tiles) :
    (0 < t.rows.outRows ∧ t.rows.outFirst + t.rows.outRows ≤ shape.outputHeight kernels) ∧
      0 < t.columns.outCols ∧
      t.columns.outFirst + t.columns.outCols ≤ shape.outputWidth kernels := by
  obtain ⟨r, c, hc, rfl, hpos, hle⟩ := h.stacked.mem ht
  have := h.colCovers.mem hc
  exact ⟨⟨hpos, hle⟩, this.2.1, this.2.2⟩

/-- The output rectangles of the tiles split the output image: each pixel lies in exactly one tile,
counted with multiplicity, and each tile is a nonempty rectangle inside the image. -/
structure PartitionsOutput (shape : Shape) (kernels : Kernels) (tiles : List Tile2D) : Prop where
  exactly_one : ∀ r c, r < shape.outputHeight kernels → c < shape.outputWidth kernels →
    tiles.countP (fun t => decide (t.Holds r c)) = 1
  nonempty : ∀ t ∈ tiles, 0 < t.rows.outRows ∧ 0 < t.columns.outCols
  inside : ∀ t ∈ tiles, t.rows.outFirst + t.rows.outRows ≤ shape.outputHeight kernels ∧
    t.columns.outFirst + t.columns.outCols ≤ shape.outputWidth kernels

/-- **Tiles partition the output.** On every path the planner can return by, the tiles of the plan
split the output image. -/
theorem tiles_partition_output {policy : PlanningPolicy} {shape : Shape} {kernels : Kernels}
    {plan : ConvPlan} (h : Accepted policy shape kernels plan) :
    PartitionsOutput shape kernels plan.tiles := by
  obtain ⟨cols, hgrid⟩ := h.planned.grid
  refine ⟨fun r c hr hc => hgrid.countP_holds hr hc, fun t ht => ?_, fun t ht => ?_⟩
  · obtain ⟨⟨h1, -⟩, h3, -⟩ := hgrid.mem_inside ht
    exact ⟨h1, h3⟩
  · obtain ⟨⟨-, h2⟩, -, h4⟩ := hgrid.mem_inside ht
    exact ⟨h2, h4⟩

/-! ### A stride-two stem

A 224x224 RGB image under a 3x3 kernel: a dense shape whose five row tiles need realigning. -/

def stemShape : Shape :=
  { width := 224, height := 224, stride := 2, inChannels := 3, outChannels := 8, precision := .fp16
    padding := none, activation := .none, depthwise := false }

def stemPlan : ConvPlan :=
  { shape := stemShape, kernels := (3, 3), dataBanks := 11, weightBanks := 1
    outputColumnWidths := [112]
    tiles := [⟨0, 25, 0, 50, 1⟩, ⟨25, 24, 49, 49, 0⟩, ⟨49, 24, 97, 49, 0⟩, ⟨73, 24, 145, 49, 0⟩,
      ⟨97, 15, 193, 31, 0⟩].map fun rows => ⟨rows, ⟨0, 112, 0, 224, 1⟩⟩ }

theorem stem_built : stemShape.Built .default :=
  .withPrecision (by decide) (by decide) (by decide)
    (show Shape.tryWithPrecision .default 224 224 2 3 8 .fp16 = .ok stemShape from rfl)

theorem stem_planned : ConvPlan.tryNew .default stemShape (3, 3) = .ok stemPlan := by
  decide +kernel

theorem stem_accepted : Accepted .default stemShape (3, 3) stemPlan :=
  .tryNew stem_built stem_planned

theorem tiles_partition_output_stem : PartitionsOutput stemShape (3, 3) stemPlan.tiles :=
  tiles_partition_output stem_accepted

end IreeRocket.Conv
