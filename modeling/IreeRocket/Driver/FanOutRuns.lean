import IreeRocket.Driver.FanOut

/-!
# Fanning out changes nothing

The jobs of a dispatch run on the contexts that own them, each on its own copies of the operands and of
the output scratch, in any order across the contexts. `fanned_out_eq` compares the gathered output with
the one a single context gives: they are the same, and both hold what the jobs compute from the operands
of the dispatch's own context.
-/

namespace IreeRocket.FanOut

open Conv TensorLayout Writes Segments
open Driver (Status)

/-! ### Jobs and schedules -/

/-- What a context has a copy of. -/
inductive Operand
  | input
  | weights
  | bias
  deriving DecidableEq, Repr

/-- What a tile's job computes: a value for each byte of the scratch it writes, from the bytes of the
operands it reads. -/
structure TileJob (reads : Operand → Nat → Prop) (writes : Nat → Bool) where
  value : (Operand → Bytes) → Nat → UInt8
  reads_only : ∀ operands operands' : Operand → Bytes,
    (∀ o k, reads o k → (operands o)[k]? = (operands' o)[k]?) →
      ∀ k, writes k = true → value operands k = value operands' k

variable {reads : Nat → Operand → Nat → Prop} {writes : Nat → Nat → Bool}

/-- The scratch after a job. -/
def TileJob.run {reads : Operand → Nat → Prop} {writes : Nat → Bool} (job : TileJob reads writes)
    (operands : Operand → Bytes) (out : Bytes) : Bytes :=
  out.mapIdx fun k byte => if writes k then job.value operands k else byte

/-- A step of the contexts: tile `i` completes on the context that owns it. -/
def runTile (jobs : ∀ i, TileJob (reads i) (writes i)) (owner : Nat → Nat)
    (operands : Nat → Operand → Bytes) (scratches : Nat → Bytes) (i : Nat) : Nat → Bytes :=
  fun context =>
    if context = owner i then (jobs i).run (operands context) (scratches context)
    else scratches context

/-- The scratches when the tiles of a schedule have completed in its order. -/
def runTiles (jobs : ∀ i, TileJob (reads i) (writes i)) (owner : Nat → Nat)
    (operands : Nat → Operand → Bytes) (schedule : List Nat) (scratches : Nat → Bytes) : Nat → Bytes :=
  schedule.foldl (runTile jobs owner operands) scratches

section Schedules

variable {jobs : ∀ i, TileJob (reads i) (writes i)} {owner : Nat → Nat}
  {operands : Nat → Operand → Bytes} {scratches : Nat → Bytes} {schedule : List Nat} {i k : Nat}

theorem length_runTile (context : Nat) :
    (runTile jobs owner operands scratches i context).length = (scratches context).length := by
  unfold runTile TileJob.run
  split_ifs
  · exact List.length_mapIdx
  · rfl

theorem length_runTiles (context : Nat) :
    (runTiles jobs owner operands schedule scratches context).length = (scratches context).length := by
  unfold runTiles
  induction schedule generalizing scratches with
  | nil => rfl
  | cons i schedule ih => exact ih.trans (length_runTile context)

/-- A byte that one tile of the schedule writes has that tile's value, whatever the order. -/
theorem runTiles_settles (hi : i ∈ schedule) (hwrites : writes i k = true)
    (honly : ∀ j, writes j k = true → j = i) (hk : k < (scratches (owner i)).length) :
    (runTiles jobs owner operands schedule scratches (owner i))[k]? =
      some ((jobs i).value (operands (owner i)) k) := by
  have htoward : Toward (fun s : Nat → Bytes => k < (s (owner i)).length)
      (fun s (_ : Unit) => (s (owner i))[k]?) (runTile jobs owner operands) (fun j _ => j = i)
      (fun _ => some ((jobs i).value (operands (owner i)) k)) schedule := by
    refine ⟨fun j _ s hs => ?_, fun j _ s hs _ hj => ?_, fun j _ s _ _ hj => ?_⟩
    · rw [length_runTile]
      exact hs
    · subst hj
      unfold runTile TileJob.run
      rw [if_pos rfl, List.getElem?_mapIdx, List.getElem?_eq_getElem hs, Option.map_some,
        if_pos hwrites]
    · have hno : writes j k ≠ true := fun hw => hj (honly j hw)
      unfold runTile TileJob.run
      split_ifs
      · rw [List.getElem?_mapIdx]
        simp only [if_neg hno, Option.map_id']
      · rfl
  exact htoward.foldl_hit hk (k := ()) ⟨i, hi, rfl⟩

/-- A tile's values depend on its own context's operands only where it reads. -/
theorem runTiles_source {source : Operand → Bytes} (hi : i ∈ schedule) (hwrites : writes i k = true)
    (honly : ∀ j, writes j k = true → j = i) (hk : k < (scratches (owner i)).length)
    (hreads : ∀ o j, reads i o j → (operands (owner i) o)[j]? = (source o)[j]?) :
    (runTiles jobs owner operands schedule scratches (owner i))[k]? =
      some ((jobs i).value source k) := by
  rw [runTiles_settles hi hwrites honly hk, (jobs i).reads_only _ source hreads k hwrites]

end Schedules

/-! ### Where tiles read and write -/

/-- The bytes of the operands as they are staged. -/
structure StagedOperands where
  input : StagedInput
  weights : Nat
  bias : Nat

/-- Tile `i` reads the byte `k` of an operand: of the input what it is programmed to fetch, of the weights
and the bias anything. -/
def TileReads (plan : ConvPlan) (staged : StagedOperands) (i : Nat) : Operand → Nat → Prop
  | .input, k => ∃ t, plan.tiles[i]? = some t ∧ Fetches plan staged.input t k
  | .weights, k => k < staged.weights
  | .bias, k => k < staged.bias

/-- The byte `k` of the scratch is one of tile `i`'s: a pixel of its rectangle in any surface of the
shared image, or its own range. -/
def tileWrites (plan : ConvPlan) (block : Nat) (sourceTiles : Option (List AccumulatorOutputTile))
    (i k : Nat) : Bool :=
  match sourceTiles with
  | some tiles => (tiles[i]?).any fun t => decide (Within t.scratchOffset t.scratchBytes k)
  | none =>
    let width := plan.shape.outputWidth plan.kernels
    let pixel := k / block % (width * plan.shape.outputHeight plan.kernels)
    (plan.tiles[i]?).any fun t => decide (t.Holds (pixel / width) (pixel % width))

/-- Where the scratch holds a byte of a pixel of tile `i`. -/
def tileSource (plan : ConvPlan) (block : Nat) (sourceTiles : Option (List AccumulatorOutputTile))
    (i row column byte : Nat) : Nat :=
  match sourceTiles with
  | some tiles =>
    match tiles[i]? with
    | some t => t.source block (row - t.outputRow) (column - t.outputColumn) byte
    | none => 0
  | none =>
    let width := plan.shape.outputWidth plan.kernels
    sourceOffset (width * plan.shape.outputHeight plan.kernels) block (row * width + column) byte

/-- The scratch of a dispatch: one image for all the tiles, whose surfaces hold the compacted pixels, or
the staged ranges of an accumulator plan. -/
inductive Scratched (plan : ConvPlan) (bytesPerPixel : Nat) :
    Nat → Nat → Option (List AccumulatorOutputTile) → Prop
  | shared {block surfaces scratchBytes : Nat} (hblock : 0 < block)
      (hle : bytesPerPixel ≤ surfaces * block)
      (hbytes : surfaces * (plan.shape.outputWidth plan.kernels *
        plan.shape.outputHeight plan.kernels) * block ≤ scratchBytes) :
      Scratched plan bytesPerPixel block scratchBytes none
  | staged {layout : AccumulatorOutputLayout} {scratchBytes : Nat}
      (hlayout : plan.accumulatorOutputLayout = .ok layout)
      (hle : bytesPerPixel ≤ plan.shape.paddedOutChannels * plan.shape.precision.outputElementBytes)
      (hbytes : layout.scratchBytes ≤ scratchBytes) :
      Scratched plan bytesPerPixel plan.shape.outputAtomBytes scratchBytes (some layout.tiles)

section Plans

variable {policy : PlanningPolicy} {shape : Shape} {kernels : Kernels} {plan : ConvPlan}
  {bytesPerPixel block scratchBytes : Nat} {sourceTiles : Option (List AccumulatorOutputTile)}
  {i row column byte : Nat} {t : Tile2D}

/-- Two positions of a list whose elements satisfy a predicate that at most one does are equal. -/
theorem index_eq_of_countP_le_one {α : Type} {p : α → Bool} {l : List α} (h : l.countP p ≤ 1)
    {i j : Nat} {a b : α} (hi : l[i]? = some a) (hj : l[j]? = some b) (ha : p a = true)
    (hb : p b = true) : i = j := by
  induction l generalizing i j with
  | nil => simp at hi
  | cons x l ih =>
    rw [List.countP_cons] at h
    cases i with
    | zero =>
      cases j with
      | zero => rfl
      | succ j =>
        rw [List.getElem?_cons_zero, Option.some.injEq] at hi
        rw [List.getElem?_cons_succ] at hj
        have hpos := List.countP_pos_iff.mpr ⟨b, List.mem_of_getElem? hj, hb⟩
        rw [if_pos (hi ▸ ha)] at h
        omega
    | succ i =>
      rw [List.getElem?_cons_succ] at hi
      cases j with
      | zero =>
        rw [List.getElem?_cons_zero, Option.some.injEq] at hj
        have hpos := List.countP_pos_iff.mpr ⟨a, List.mem_of_getElem? hi, ha⟩
        rw [if_pos (hj ▸ hb)] at h
        omega
      | succ j =>
        rw [List.getElem?_cons_succ] at hj
        rw [ih (by omega) hi hj]

/-- The plan's own shape and kernels, which are those it was made for. -/
theorem partitions (h : Accepted policy shape kernels plan) :
    PartitionsOutput plan.shape plan.kernels plan.tiles := by
  rw [h.planned.shape_eq, h.planned.kernels_eq]
  exact tiles_partition_output h

theorem pixel_lt_image (h : Accepted policy shape kernels plan) (ht : plan.tiles[i]? = some t)
    (hholds : t.Holds row column) : row < plan.shape.outputHeight plan.kernels ∧
      column < plan.shape.outputWidth plan.kernels := by
  obtain ⟨hrows, hcolumns⟩ := (partitions h).inside t (List.mem_of_getElem? ht)
  exact ⟨hholds.1.2.trans_le hrows, hholds.2.2.trans_le hcolumns⟩

/-- A pixel's bytes in a shared image are its own tile's. -/
theorem shared_source (h : Accepted policy shape kernels plan) {surfaces : Nat} (hblock : 0 < block)
    (hle : bytesPerPixel ≤ surfaces * block)
    (hbytes : surfaces * (plan.shape.outputWidth plan.kernels *
      plan.shape.outputHeight plan.kernels) * block ≤ scratchBytes)
    (ht : plan.tiles[i]? = some t) (hholds : t.Holds row column) (hbyte : byte < bytesPerPixel) :
    tileSource plan block none i row column byte < scratchBytes ∧
      tileWrites plan block none i (tileSource plan block none i row column byte) = true ∧
      ∀ j, tileWrites plan block none j (tileSource plan block none i row column byte) = true →
        j = i := by
  obtain ⟨hrow, hcolumn⟩ := pixel_lt_image h ht hholds
  set width := plan.shape.outputWidth plan.kernels with hwidth
  set pixels := width * plan.shape.outputHeight plan.kernels with hpixels
  have hpixel : row * width + column < pixels := by
    rw [hpixels, Nat.mul_comm width]
    exact BandGeometry.lane_lt hrow hcolumn
  have hlane := Nat.mod_lt byte hblock
  have hsurface : byte / block < surfaces := (Nat.div_lt_iff_lt_mul hblock).mpr (hbyte.trans_le hle)
  have hblocks : byte / block * pixels + (row * width + column) < surfaces * pixels :=
    BandGeometry.lane_lt hsurface hpixel
  have hlt := BandGeometry.lane_lt hblocks hlane
  have hfound : (sourceOffset pixels block (row * width + column) byte) / block % pixels =
      row * width + column := by
    unfold sourceOffset
    rw [Nat.mul_comm _ block, Nat.mul_add_div hblock, Nat.div_eq_of_lt hlane, Nat.add_zero,
      Nat.mul_comm _ pixels, Nat.mul_add_mod, Nat.mod_eq_of_lt hpixel]
  have hrow_eq : (row * width + column) / width = row := by
    rw [Nat.mul_comm, Nat.mul_add_div (by omega), Nat.div_eq_of_lt hcolumn, Nat.add_zero]
  have hcolumn_eq : (row * width + column) % width = column := by
    rw [Nat.mul_comm, Nat.mul_add_mod, Nat.mod_eq_of_lt hcolumn]
  refine ⟨hlt.trans_le hbytes, ?_, fun j hj => ?_⟩
  · simp only [tileWrites, tileSource, ht, Option.any_some, ← hwidth, ← hpixels, hfound, hrow_eq,
      hcolumn_eq, decide_eq_true_eq]
    exact hholds
  · simp only [tileWrites, tileSource, ← hwidth, ← hpixels, hfound, hrow_eq, hcolumn_eq] at hj
    cases hu : plan.tiles[j]? with
    | none => simp [hu] at hj
    | some u =>
      rw [hu, Option.any_some] at hj
      exact index_eq_of_countP_le_one ((partitions h).exactly_one row column hrow hcolumn).le hu ht hj
        (decide_eq_true hholds)

/-- What the layout of an accepted plan is, wherever it exists. -/
theorem stagesExactly (h : Accepted policy shape kernels plan) {layout : AccumulatorOutputLayout}
    (hlayout : plan.accumulatorOutputLayout = .ok layout) :
    plan.shape.precision.writesAccumulators = true ∧ StagesExactly plan layout := by
  have hacc : plan.shape.precision.writesAccumulators = true := by
    have hok := hlayout
    unfold ConvPlan.accumulatorOutputLayout at hok
    simp only [bind_ok, refuseUnless_ok] at hok
    obtain ⟨-, hacc, -⟩ := hok
    exact hacc
  obtain ⟨built, hbuilt, hstages⟩ := h.accumulatorOutputLayout (h.planned.shape_eq ▸ hacc)
  rw [hlayout] at hbuilt
  exact ⟨hacc, Except.ok.inj hbuilt ▸ hstages⟩

/-- The staged tile of a plan's tile. -/
theorem StagesExactly.staged {layout : AccumulatorOutputLayout} (h : StagesExactly plan layout)
    (ht : plan.tiles[i]? = some t) :
    ∃ staged, layout.tiles[i]? = some staged ∧ Stages plan.shape staged t := by
  obtain ⟨hi, rfl⟩ := List.getElem?_eq_some_iff.mp ht
  have hlength := h.stages.length_eq
  exact ⟨layout.tiles[i], List.getElem?_eq_getElem (by omega),
    List.forall₂_iff_get.mp h.stages |>.2 i (by omega) hi⟩

/-- A pixel's bytes in the staged ranges lie in its own tile's. -/
theorem staged_source (h : Accepted policy shape kernels plan) {layout : AccumulatorOutputLayout}
    (hlayout : plan.accumulatorOutputLayout = .ok layout)
    (hle : bytesPerPixel ≤ plan.shape.paddedOutChannels * plan.shape.precision.outputElementBytes)
    (ht : plan.tiles[i]? = some t) (hholds : t.Holds row column) (hbyte : byte < bytesPerPixel) :
    let source := tileSource plan plan.shape.outputAtomBytes (some layout.tiles) i row column byte
    source < layout.scratchBytes ∧
      tileWrites plan plan.shape.outputAtomBytes (some layout.tiles) i source = true ∧
      ∀ j, tileWrites plan plan.shape.outputAtomBytes (some layout.tiles) j source = true → j = i := by
  intro source
  obtain ⟨hacc, hexact⟩ := stagesExactly h hlayout
  obtain ⟨hblock, -⟩ := outputAtomBytes_bounds hacc
  obtain ⟨staged, hstaged, hstages⟩ := StagesExactly.staged hexact ht
  have hround := le_ceilDiv_mul (plan.shape.paddedOutChannels * plan.shape.precision.outputElementBytes)
    hblock
  obtain ⟨⟨hrow, hrow'⟩, hcolumn, hcolumn'⟩ := hholds
  have hlane := Nat.mod_lt byte hblock
  have hsurface : byte / plan.shape.outputAtomBytes < (plan.shape.paddedOutChannels *
      plan.shape.precision.outputElementBytes) ⌈/⌉ plan.shape.outputAtomBytes :=
    (Nat.div_lt_iff_lt_mul hblock).mpr (by omega)
  have hlocal : (row - staged.outputRow) * staged.outputColumns + (column - staged.outputColumn) <
      staged.outputRows * staged.outputColumns := by
    rw [hstages.row, hstages.rows, hstages.column, hstages.columns]
    exact BandGeometry.lane_lt (by omega) (by omega)
  have hlt := BandGeometry.lane_lt (BandGeometry.lane_lt hsurface hlocal) hlane
  have hbytes : staged.scratchBytes = (plan.shape.paddedOutChannels *
      plan.shape.precision.outputElementBytes) ⌈/⌉ plan.shape.outputAtomBytes *
      (staged.outputRows * staged.outputColumns) * plan.shape.outputAtomBytes := by
    rw [hstages.bytes, hstages.rows, hstages.columns]
    unfold stagedPixelBytes
    ring
  have hsource : source = staged.scratchOffset + sourceOffset (staged.outputRows * staged.outputColumns)
      plan.shape.outputAtomBytes ((row - staged.outputRow) * staged.outputColumns +
        (column - staged.outputColumn)) byte := by
    simp only [source, tileSource, hstaged]
    rfl
  have hin : Within staged.scratchOffset staged.scratchBytes source := by
    unfold sourceOffset at hsource
    exact ⟨by omega, by omega⟩
  have hend := (hexact.contiguous.mem (List.mem_of_getElem? hstaged)).2.2
  refine ⟨hin.2.trans_le hend, ?_, fun j hj => ?_⟩
  · simp only [tileWrites, hstaged, Option.any_some, decide_eq_true_eq]
    exact hin
  · simp only [tileWrites] at hj
    cases hu : layout.tiles[j]? with
    | none => simp [hu] at hj
    | some u =>
      rw [hu, Option.any_some, decide_eq_true_eq] at hj
      -- Two ranges that share a byte are one.
      obtain ⟨hi, rfl⟩ := List.getElem?_eq_some_iff.mp hstaged
      obtain ⟨hj', rfl⟩ := List.getElem?_eq_some_iff.mp hu
      have hpairs := List.pairwise_iff_getElem.mp hexact.disjoint
      obtain ⟨h1, h2⟩ := hin
      obtain ⟨g1, g2⟩ := hj
      rcases Nat.lt_trichotomy j i with hlt | heq | hgt
      · have := hpairs j i hj' hi hlt
        omega
      · exact heq
      · have := hpairs i j hi hj' hgt
        omega

/-- A pixel's bytes in the scratch of a dispatch are its own tile's. -/
theorem Scratched.source (hscratched : Scratched plan bytesPerPixel block scratchBytes sourceTiles)
    (h : Accepted policy shape kernels plan) (ht : plan.tiles[i]? = some t)
    (hholds : t.Holds row column) (hbyte : byte < bytesPerPixel) :
    tileSource plan block sourceTiles i row column byte < scratchBytes ∧
      tileWrites plan block sourceTiles i (tileSource plan block sourceTiles i row column byte) = true ∧
      ∀ j, tileWrites plan block sourceTiles j
        (tileSource plan block sourceTiles i row column byte) = true → j = i := by
  cases hscratched with
  | shared hblock hle hbytes => exact shared_source h hblock hle hbytes ht hholds hbyte
  | staged hlayout hle hbytes =>
    obtain ⟨hlt, hrest⟩ := staged_source h hlayout hle ht hholds hbyte
    exact ⟨hlt.trans_le hbytes, hrest⟩

/-- One call of the gather, on a scratch of the dispatch. -/
theorem Scratched.gathered (hscratched : Scratched plan bytesPerPixel block scratchBytes sourceTiles)
    (h : Accepted policy shape kernels plan) (ht : plan.tiles[i]? = some t)
    {replicas outputOffset outputLength : Nat} {source dst : Bytes}
    (hsource : scratchBytes ≤ source.length)
    (hdst : dst.length =
      plan.shape.outputWidth plan.kernels * plan.shape.outputHeight plan.kernels * bytesPerPixel) :
    Gathered t (plan.shape.outputWidth plan.kernels) bytesPerPixel
      (fun row column byte => source[tileSource plan block sourceTiles i row column byte]?) dst
      ((plannedCompaction plan replicas outputOffset outputLength bytesPerPixel block
        sourceTiles).gatherTile source (tileRect t i) dst) := by
  have hwidth := plan.shape.outputWidth_pos plan.kernels
  cases hscratched with
  | shared hblock hle hbytes =>
    exact rect_gathered hblock hwidth ((partitions h).inside t (List.mem_of_getElem? ht)) hle
      (hbytes.trans hsource) hdst
  | @staged layout scratchBytes hlayout hle hbytes =>
    obtain ⟨hacc, hexact⟩ := stagesExactly h hlayout
    obtain ⟨hblock, -⟩ := outputAtomBytes_bounds hacc
    obtain ⟨staged, hstaged, hstages⟩ := StagesExactly.staged hexact ht
    have hround := le_ceilDiv_mul
      (plan.shape.paddedOutChannels * plan.shape.precision.outputElementBytes) hblock
    have hends : ∀ u ∈ layout.tiles, u.scratchOffset + u.scratchBytes ≤ source.length ∧
        u.scratchOffset + u.scratchBytes < 2 ^ 64 := by
      intro u hu
      have hend := (hexact.contiguous.mem hu).2.2
      exact ⟨hend.trans (hbytes.trans hsource), hend.trans_lt hexact.fits⟩
    have hgathered := staged_gathered (hexact.splitsImage (partitions h)) hblock hwidth
      (hle.trans hround) hends hdst hstaged hstages.row hstages.rows hstages.column hstages.columns
    have hvalue : (fun row column byte =>
        source[tileSource plan plan.shape.outputAtomBytes (some layout.tiles) i row column byte]?) =
        fun row column byte => source[staged.source plan.shape.outputAtomBytes
          (row - t.rows.outFirst) (column - t.columns.outFirst) byte]? := by
      funext row column byte
      simp only [tileSource, hstaged, hstages.row, hstages.column]
    rw [hvalue]
    exact hgathered

/-- The rectangles beside the contexts that ran them. -/
theorem zip_tileContexts (plan : ConvPlan) (replicas : Nat) :
    (plan.tiles.zipIdx.map fun (t, i) => tileRect t i).zip (tileContexts plan.tiles.length replicas) =
      plan.tiles.zipIdx.map fun (t, i) => (tileRect t i, i % (replicas + 1)) := by
  apply List.ext_getElem?
  intro i
  rw [List.zip, List.getElem?_zipWith, List.getElem?_map, List.getElem?_map, List.getElem?_zipIdx]
  by_cases hi : i < plan.tiles.length
  · rw [getElem?_tileContexts hi, List.getElem?_eq_getElem hi]
    simp
  · rw [List.getElem?_eq_none (Nat.not_lt.mp hi)]
    rfl

/-- What a compaction leaves: the whole dense output is reported, and every pixel has the bytes of its
tile's scratch. -/
def Compacts (plan : ConvPlan) (bytesPerPixel block : Nat)
    (sourceTiles : Option (List AccumulatorOutputTile)) (source : Nat → Bytes) (dst : Bytes)
    (result : Nat × Bytes) : Prop :=
  ∃ out, result = (dst.length, out) ∧ out.length = dst.length ∧
    ∀ i t, plan.tiles[i]? = some t → ∀ row column byte, t.Holds row column → byte < bytesPerPixel →
      out[denseByte (plan.shape.outputWidth plan.kernels) bytesPerPixel row column byte]? =
        (source i)[tileSource plan block sourceTiles i row column byte]?

/-- A dispatch on one context. -/
theorem Scratched.compacts_single
    (hscratched : Scratched plan bytesPerPixel block scratchBytes sourceTiles)
    (h : Accepted policy shape kernels plan) {outputOffset outputLength : Nat} {scratches : Nat → Bytes}
    (hsource : scratchBytes ≤ (scratches 0).length) {dst : Bytes} (hdst : dst.length =
      plan.shape.outputWidth plan.kernels * plan.shape.outputHeight plan.kernels * bytesPerPixel) :
    Compacts plan bytesPerPixel block sourceTiles (fun _ => scratches 0) dst
      ((plannedCompaction plan 0 outputOffset outputLength bytesPerPixel block
        sourceTiles).compact scratches dst) := by
  have hwidth := plan.shape.outputWidth_pos plan.kernels
  cases hscratched with
  | shared hblock hle hbytes =>
    obtain ⟨out, hrun, hlength, hread⟩ :=
      compact_spec hblock le_rfl hle (hbytes.trans hsource) hdst.ge
    refine ⟨out, hrun.trans (by rw [hdst]), hlength, fun i t ht row column byte hholds hbyte => ?_⟩
    obtain ⟨hrow, hcolumn⟩ := pixel_lt_image h ht hholds
    refine hread _ ?_ byte hbyte
    rw [Nat.mul_comm (plan.shape.outputWidth _)]
    exact BandGeometry.lane_lt hrow hcolumn
  | @staged layout scratchBytes hlayout hle hbytes =>
    obtain ⟨hacc, hexact⟩ := stagesExactly h hlayout
    obtain ⟨hblock, -⟩ := outputAtomBytes_bounds hacc
    have hround := le_ceilDiv_mul
      (plan.shape.paddedOutChannels * plan.shape.precision.outputElementBytes) hblock
    have harea : (plan.tiles.map Tile2D.area).sum =
        plan.shape.outputWidth plan.kernels * plan.shape.outputHeight plan.kernels := by
      rw [h.sum_area, h.planned.shape_eq, h.planned.kernels_eq]
    obtain ⟨out, hrun, hlength, hread, -⟩ := (hexact.compactsExactly (partitions h) harea hblock
      (hle.trans hround)).gathers (scratches 0) dst (hbytes.trans hsource) hdst.ge
    refine ⟨out, hrun.trans (by rw [hdst]), hlength, fun i t ht row column byte hholds hbyte => ?_⟩
    obtain ⟨staged, hstaged, hstages⟩ := StagesExactly.staged hexact ht
    obtain ⟨⟨hrow, hrow'⟩, hcolumn, hcolumn'⟩ := hholds
    have hrow_eq := hstages.row
    have hrows_eq := hstages.rows
    have hcolumn_eq := hstages.column
    have hcolumns_eq := hstages.columns
    have hfound := hread staged (List.mem_of_getElem? hstaged) (row - staged.outputRow) (by omega)
      (column - staged.outputColumn) (by omega) byte hbyte
    rw [Nat.add_sub_cancel' (by omega), Nat.add_assoc (row * _),
      Nat.add_sub_cancel' (by omega)] at hfound
    simp only [tileSource, hstaged]
    exact hfound

/-- A dispatch fanned out. -/
theorem Scratched.compacts_gathered
    (hscratched : Scratched plan bytesPerPixel block scratchBytes sourceTiles)
    (h : Accepted policy shape kernels plan) {replicas outputOffset outputLength : Nat}
    (hreplicas : replicas ≠ 0) {scratches : Nat → Bytes}
    (hsources : ∀ context ≤ replicas, scratchBytes ≤ (scratches context).length) {dst : Bytes}
    (hdst : dst.length =
      plan.shape.outputWidth plan.kernels * plan.shape.outputHeight plan.kernels * bytesPerPixel) :
    Compacts plan bytesPerPixel block sourceTiles (fun i => scratches (i % (replicas + 1))) dst
      ((plannedCompaction plan replicas outputOffset outputLength bytesPerPixel block
        sourceTiles).compact scratches dst) := by
  set oc := plannedCompaction plan replicas outputOffset outputLength bytesPerPixel block
    sourceTiles with hoc
  have hone := (partitions h).exactly_one
  have hne : oc.tileRects ≠ [] := by
    have htiles : plan.tiles ≠ [] := by
      intro hnil
      have hzero := hone 0 0 (plan.shape.outputHeight_pos plan.kernels)
        (plan.shape.outputWidth_pos plan.kernels)
      rw [hnil] at hzero
      cases hzero
    have hrects : oc.tileRects = plan.tiles.zipIdx.map fun (t, i) => tileRect t i := if_neg hreplicas
    rw [hrects]
    simpa using htiles
  have hcompact : oc.compact scratches dst = gatherAll (fun (item : Tile2D × Nat) dst =>
      oc.gatherTile (scratches (item.2 % (replicas + 1))) (tileRect item.1 item.2) dst)
      plan.tiles.zipIdx (0, dst) := by
    have hzip : oc.tileRects.zip oc.tileContext =
        plan.tiles.zipIdx.map fun (t, i) => (tileRect t i, i % (replicas + 1)) := by
      rw [← zip_tileContexts, hoc]
      simp only [plannedCompaction, if_neg hreplicas]
    unfold OutputCompaction.compact gatherAll
    rw [if_pos hne, hzip, List.foldl_map]
  have hitems : ∀ item ∈ plan.tiles.zipIdx, plan.tiles[item.2]? = some item.1 :=
    fun item hitem => List.mem_zipIdx_iff_getElem?.mp hitem
  have hmap : plan.tiles.zipIdx.map Prod.fst = plan.tiles := List.zipIdx_map_fst 0 plan.tiles
  have hcall : ∀ item ∈ plan.tiles.zipIdx, ∀ dst : Bytes, dst.length =
      plan.shape.outputWidth plan.kernels * plan.shape.outputHeight plan.kernels * bytesPerPixel →
      Gathered item.1 (plan.shape.outputWidth plan.kernels) bytesPerPixel
        (fun row column byte => (scratches (item.2 % (replicas + 1)))[tileSource plan block sourceTiles
          item.2 row column byte]?) dst
        (oc.gatherTile (scratches (item.2 % (replicas + 1))) (tileRect item.1 item.2) dst) :=
    fun item hitem dst hdst => hscratched.gathered h (hitems item hitem)
      (hsources _ (Nat.le_of_lt_succ (Nat.mod_lt _ (Nat.succ_pos replicas)))) hdst
  have hapart : ∀ row column, row < plan.shape.outputHeight plan.kernels →
      column < plan.shape.outputWidth plan.kernels →
      plan.tiles.zipIdx.countP (fun item => decide (item.1.Holds row column)) ≤ 1 := by
    intro row column hrow hcolumn
    have hcount := hone row column hrow hcolumn
    rw [← hmap, List.countP_map] at hcount
    exact hcount.le
  obtain ⟨out, hrun, hlength, hout⟩ := gatherAll_spec hcall hapart 0 dst hdst
  have harea : (plan.tiles.zipIdx.map fun item => item.1.area).sum =
      plan.shape.outputWidth plan.kernels * plan.shape.outputHeight plan.kernels := by
    have hareas : (plan.tiles.zipIdx.map fun item => item.1.area) = plan.tiles.map Tile2D.area := by
      conv_rhs => rw [← hmap, List.map_map]
      rfl
    rw [hareas, h.sum_area, h.planned.shape_eq, h.planned.kernels_eq]
  rw [harea, Nat.zero_add, ← hdst] at hrun
  refine ⟨out, hcompact.trans hrun, hlength.trans hdst.symm, ?_⟩
  intro i t ht row column byte hholds hbyte
  obtain ⟨hrow, hcolumn⟩ := pixel_lt_image h ht hholds
  exact (hout row column byte hrow hcolumn hbyte).1 (t, i)
    (List.mem_zipIdx_iff_getElem?.mpr ht) hholds

/-- A dispatch, fanned out or not. -/
theorem Scratched.compacts (hscratched : Scratched plan bytesPerPixel block scratchBytes sourceTiles)
    (h : Accepted policy shape kernels plan) {replicas outputOffset outputLength : Nat}
    {scratches : Nat → Bytes} (hsources : ∀ context ≤ replicas, scratchBytes ≤ (scratches context).length)
    {dst : Bytes} (hdst : dst.length =
      plan.shape.outputWidth plan.kernels * plan.shape.outputHeight plan.kernels * bytesPerPixel) :
    Compacts plan bytesPerPixel block sourceTiles (fun i => scratches (i % (replicas + 1))) dst
      ((plannedCompaction plan replicas outputOffset outputLength bytesPerPixel block
        sourceTiles).compact scratches dst) := by
  rcases Nat.eq_zero_or_pos replicas with rfl | hpos
  · simp only [Nat.zero_add, Nat.mod_one]
    exact hscratched.compacts_single h (hsources 0 le_rfl) hdst
  · exact hscratched.compacts_gathered h hpos.ne' hsources hdst

/-- Every byte of the dense output is a pixel's, and the pixel is in a tile. -/
theorem exists_denseByte (h : Accepted policy shape kernels plan) {k : Nat}
    (hk : k < plan.shape.outputWidth plan.kernels * plan.shape.outputHeight plan.kernels *
      bytesPerPixel) :
    ∃ (i : Nat) (t : Tile2D) (row column byte : Nat), plan.tiles[i]? = some t ∧ t.Holds row column ∧
      byte < bytesPerPixel ∧
      k = denseByte (plan.shape.outputWidth plan.kernels) bytesPerPixel row column byte := by
  obtain ⟨pixel, byte, hpixel, hbyte, rfl⟩ := BandGeometry.exists_lane hk
  rw [Nat.mul_comm] at hpixel
  obtain ⟨row, column, hrow, hcolumn, rfl⟩ := BandGeometry.exists_lane hpixel
  have hone := (partitions h).exactly_one row column hrow hcolumn
  obtain ⟨t, ht, hholds⟩ := List.countP_pos_iff.mp (hone ▸ Nat.one_pos)
  obtain ⟨i, hi⟩ := List.mem_iff_getElem?.mp ht
  exact ⟨i, t, row, column, byte, hi, of_decide_eq_true hholds, hbyte, rfl⟩

/-- Scratches that agree where the tiles' pixels are compact to one output. -/
theorem Compacts.result_eq (h : Accepted policy shape kernels plan) {source source' : Nat → Bytes}
    {dst : Bytes} {result result' : Nat × Bytes}
    (hresult : Compacts plan bytesPerPixel block sourceTiles source dst result)
    (hresult' : Compacts plan bytesPerPixel block sourceTiles source' dst result')
    (hdst : dst.length =
      plan.shape.outputWidth plan.kernels * plan.shape.outputHeight plan.kernels * bytesPerPixel)
    (hagree : ∀ i t, plan.tiles[i]? = some t → ∀ row column byte, t.Holds row column →
      byte < bytesPerPixel →
        (source i)[tileSource plan block sourceTiles i row column byte]? =
          (source' i)[tileSource plan block sourceTiles i row column byte]?) :
    result = result' := by
  obtain ⟨out, rfl, hlength, hout⟩ := hresult
  obtain ⟨out', rfl, hlength', hout'⟩ := hresult'
  refine Prod.ext rfl (List.ext_getElem? fun k => ?_)
  by_cases hk : k < dst.length
  · obtain ⟨i, t, row, column, byte, ht, hholds, hbyte, rfl⟩ := exists_denseByte h (hk.trans_eq hdst)
    rw [hout i t ht row column byte hholds hbyte, hout' i t ht row column byte hholds hbyte]
    exact hagree i t ht row column byte hholds hbyte
  · have hout_le : out.length ≤ k := by omega
    have hout_le' : out'.length ≤ k := by omega
    exact (List.getElem?_eq_none hout_le).trans (List.getElem?_eq_none hout_le').symm

/-! ### Fanned out and alone -/

/-- An operand that is copied whole. -/
def wholeCopy (length : Nat) : ReplicaCopy := ⟨length, none, []⟩

/-- The operands of a fanned-out dispatch: the home context's, and each sibling's after its copies into
buffers of the pool. A packing of the weights that a sibling finds in the cache is not copied; it is the
home packing's bytes. -/
structure FannedOperands (plan : ConvPlan) (staged : StagedOperands) (replicas : Nat)
    (source : Operand → Bytes) (operands : Nat → Operand → Bytes) : Prop where
  home : operands 0 = source
  input : ∀ index < replicas, ∃ buffer : Bytes, staged.input.length ≤ buffer.length ∧
    applyReplicaCopy true (source .input) (plannedReplicaInput plan staged.input replicas index)
      buffer = .ok (operands (index + 1) .input)
  weights : ∀ index < replicas, (∃ buffer : Bytes, staged.weights ≤ buffer.length ∧
    applyReplicaCopy true (source .weights) (wholeCopy staged.weights) buffer =
      .ok (operands (index + 1) .weights)) ∨
    (operands (index + 1) .weights).take staged.weights = (source .weights).take staged.weights
  bias : ∀ index < replicas, ∃ buffer : Bytes, staged.bias ≤ buffer.length ∧
    applyReplicaCopy true (source .bias) (wholeCopy staged.bias) buffer =
      .ok (operands (index + 1) .bias)

/-- The source operands hold what is staged of them. -/
structure StagedOperands.Within (staged : StagedOperands) (source : Operand → Bytes) : Prop where
  input : staged.input.length ≤ (source .input).length
  weights : staged.weights ≤ (source .weights).length
  bias : staged.bias ≤ (source .bias).length

/-- A whole copy. -/
theorem wholeCopy_bytes {source buffer out : Bytes} {length k : Nat} (hsource : length ≤ source.length)
    (hbuffer : length ≤ buffer.length)
    (hcopy : applyReplicaCopy true source (wholeCopy length) buffer = .ok out) (hk : k < length) :
    out[k]? = source[k]? := by
  have hout : store buffer 0 (load source 0 length) = out := Except.ok.inj hcopy
  have hload : (load source 0 length).length = length := length_load (by omega)
  rw [← hout, getElem?_store_mem (by omega) (Nat.zero_le k) (by omega), Nat.sub_zero,
    getElem?_load hk, Nat.zero_add]

/-- Every context's operands agree with the home ones where its tiles read. -/
theorem FannedOperands.agree (h : Accepted policy shape kernels plan) {staged : StagedOperands}
    {replicas : Nat} (hstaged : 0 < replicas → staged.input.Holds shape.width shape.height)
    (hreplicas : replicas < plan.tiles.length) {source : Operand → Bytes}
    (hsource : staged.Within source) {operands : Nat → Operand → Bytes}
    (hoperands : FannedOperands plan staged replicas source operands) {i k : Nat} {o : Operand}
    (hreads : TileReads plan staged i o k) :
    (operands (i % (replicas + 1)) o)[k]? = (source o)[k]? := by
  cases howner : i % (replicas + 1) with
  | zero => rw [hoperands.home]
  | succ index =>
    have hindex : index < replicas := by
      have := Nat.mod_lt i (show 0 < replicas + 1 by omega)
      omega
    cases o with
    | input =>
      obtain ⟨t, ht, hin⟩ := hreads
      obtain ⟨buffer, hbuffer, hcopy⟩ := hoperands.input index hindex
      obtain ⟨out, hout, -, hbytes⟩ :=
        sibling_windows h (hstaged (by omega)) hreplicas hindex hsource.input hbuffer
      rw [hcopy] at hout
      rw [Except.ok.inj hout]
      exact (hbytes k).1 ⟨i, t, ht, howner, hin⟩
    | weights =>
      have hk : k < staged.weights := hreads
      rcases hoperands.weights index hindex with ⟨buffer, hbuffer, hcopy⟩ | hhit
      · exact wholeCopy_bytes hsource.weights hbuffer hcopy hk
      · rw [← List.getElem?_take_of_lt hk, hhit, List.getElem?_take_of_lt hk]
    | bias =>
      obtain ⟨buffer, hbuffer, hcopy⟩ := hoperands.bias index hindex
      exact wholeCopy_bytes hsource.bias hbuffer hcopy hreads

/-- The bytes the jobs compute are in the scratch of the context that owns their tile. -/
theorem Scratched.computed (hscratched : Scratched plan bytesPerPixel block scratchBytes sourceTiles)
    (h : Accepted policy shape kernels plan) {staged : StagedOperands}
    {jobs : ∀ i, TileJob (TileReads plan staged i) (tileWrites plan block sourceTiles i)}
    {owner : Nat → Nat} {operands : Nat → Operand → Bytes} {scratches : Nat → Bytes}
    {source : Operand → Bytes} {schedule : List Nat} (hall : ∀ i < plan.tiles.length, i ∈ schedule)
    (hagree : ∀ i o k, TileReads plan staged i o k → (operands (owner i) o)[k]? = (source o)[k]?)
    (hscratch : ∀ i, scratchBytes ≤ (scratches (owner i)).length) (ht : plan.tiles[i]? = some t)
    (hholds : t.Holds row column) (hbyte : byte < bytesPerPixel) :
    (runTiles jobs owner operands schedule scratches (owner i))[
        tileSource plan block sourceTiles i row column byte]? =
      some ((jobs i).value source (tileSource plan block sourceTiles i row column byte)) := by
  obtain ⟨hlt, hwrites, honly⟩ := hscratched.source h ht hholds hbyte
  exact runTiles_source (hall i (List.getElem?_eq_some_iff.mp ht).choose) hwrites honly
    (hlt.trans_le (hscratch i)) (hagree i)

/-- The compaction of a dispatch whose binding is long enough. -/
theorem run_eq {oc : OutputCompaction} {scratches : Nat → Bytes} {output out : Bytes}
    (hfits : oc.outputPixelCount * oc.bytesPerPixel ≤ oc.outputLength)
    (hcompact : oc.compact scratches
      (load output oc.outputOffset (oc.outputPixelCount * oc.bytesPerPixel)) =
        (oc.outputPixelCount * oc.bytesPerPixel, out)) :
    oc.run scratches output = .ok (store output oc.outputOffset out) := by
  unfold OutputCompaction.run
  simp only [hcompact, bind_ok, unlessErr_ok, pure_ok, exists_const, and_true]
  exact hfits

/-- A short binding is refused before anything is gathered. -/
theorem run_short {oc : OutputCompaction} {scratches : Nat → Bytes} {output : Bytes}
    (hshort : ¬ oc.outputPixelCount * oc.bytesPerPixel ≤ oc.outputLength) :
    oc.run scratches output = .error .internal := by
  unfold OutputCompaction.run
  simp only [unlessErr, if_neg hshort]
  rfl

/-- **Fanning out changes nothing.** For every accepted plan, in atomic surfaces or in staged ranges, any
number of siblings under the number of tiles, jobs that read no more than their tile's window, the weights
and the bias and write no more than their tile's part of the scratch, whatever the pooled buffers held,
and any order in which the tiles complete across the contexts: the compaction of the fanned-out dispatch
ends as that of the same dispatch on one context does. Where the binding holds the dense output both
succeed, and each pixel has the bytes its tile's job computes from the home context's operands. -/
theorem fanned_out_eq (h : Accepted policy shape kernels plan)
    (hscratched : Scratched plan bytesPerPixel block scratchBytes sourceTiles) {staged : StagedOperands}
    {replicas : Nat} (hstaged : 0 < replicas → staged.input.Holds shape.width shape.height)
    (jobs : ∀ i, TileJob (TileReads plan staged i) (tileWrites plan block sourceTiles i))
    (hreplicas : replicas < plan.tiles.length) {source : Operand → Bytes}
    (hsource : staged.Within source) {operands : Nat → Operand → Bytes} {scratches : Nat → Bytes}
    {alone : Bytes} (hoperands : FannedOperands plan staged replicas source operands)
    (hscratches : ∀ context ≤ replicas, scratchBytes ≤ (scratches context).length)
    (halone : scratchBytes ≤ alone.length) {schedule : List Nat}
    (hall : ∀ i < plan.tiles.length, i ∈ schedule) {outputOffset outputLength : Nat} {output : Bytes}
    (houtput : outputOffset + outputLength ≤ output.length) :
    let fanned := (plannedCompaction plan replicas outputOffset outputLength bytesPerPixel block
      sourceTiles).run (runTiles jobs (· % (replicas + 1)) operands schedule scratches) output
    fanned = (plannedCompaction plan 0 outputOffset outputLength bytesPerPixel block sourceTiles).run
      (runTiles jobs (fun _ => 0) (fun _ => source) (List.range plan.tiles.length) fun _ => alone)
      output ∧
    (plan.shape.outputWidth plan.kernels * plan.shape.outputHeight plan.kernels * bytesPerPixel ≤
        outputLength → ∃ out, fanned = .ok out ∧ out.length = output.length ∧
      ∀ i t, plan.tiles[i]? = some t → ∀ row column byte, t.Holds row column →
        byte < bytesPerPixel →
        out[outputOffset +
            denseByte (plan.shape.outputWidth plan.kernels) bytesPerPixel row column byte]? =
          some ((jobs i).value source (tileSource plan block sourceTiles i row column byte))) := by
  intro fanned
  set expected := plan.shape.outputWidth plan.kernels * plan.shape.outputHeight plan.kernels *
    bytesPerPixel with hexpected
  by_cases hfits : expected ≤ outputLength
  swap
  · refine ⟨?_, fun hle => absurd hle hfits⟩
    have hfanned : fanned = .error .internal := run_short hfits
    exact hfanned.trans (run_short hfits).symm
  have hdst : (load output outputOffset expected).length = expected := length_load (by omega)
  have hmod : ∀ i, i % (replicas + 1) ≤ replicas :=
    fun i => Nat.le_of_lt_succ (Nat.mod_lt i (Nat.succ_pos replicas))
  have hcomputed : ∀ i t, plan.tiles[i]? = some t → ∀ row column byte, t.Holds row column →
      byte < bytesPerPixel → (runTiles jobs (· % (replicas + 1)) operands schedule scratches
        (i % (replicas + 1)))[tileSource plan block sourceTiles i row column byte]? =
        some ((jobs i).value source (tileSource plan block sourceTiles i row column byte)) :=
    fun i t ht row column byte hholds hbyte =>
      hscratched.computed h hall (fun i o k hreads => hoperands.agree h hstaged hreplicas hsource hreads)
        (fun i => hscratches _ (hmod i)) ht hholds hbyte
  have halone_computed : ∀ i t, plan.tiles[i]? = some t → ∀ row column byte, t.Holds row column →
      byte < bytesPerPixel → (runTiles jobs (fun _ => 0) (fun _ => source)
        (List.range plan.tiles.length) (fun _ => alone) 0)[
          tileSource plan block sourceTiles i row column byte]? =
        some ((jobs i).value source (tileSource plan block sourceTiles i row column byte)) :=
    fun i t ht row column byte hholds hbyte =>
      hscratched.computed h (fun i hi => List.mem_range.mpr hi) (fun _ _ _ _ => rfl) (fun _ => halone)
        ht hholds hbyte
  have hfanned : Compacts plan bytesPerPixel block sourceTiles _ (load output outputOffset expected)
      ((plannedCompaction plan replicas outputOffset outputLength bytesPerPixel block sourceTiles).compact
        (runTiles jobs (· % (replicas + 1)) operands schedule scratches) _) :=
    hscratched.compacts h (fun context hcontext => by
      rw [length_runTiles]
      exact hscratches context hcontext) hdst
  have hsingle : Compacts plan bytesPerPixel block sourceTiles _ (load output outputOffset expected)
      ((plannedCompaction plan 0 outputOffset outputLength bytesPerPixel block sourceTiles).compact
        (runTiles jobs (fun _ => 0) (fun _ => source) (List.range plan.tiles.length) fun _ => alone) _) :=
    hscratched.compacts h (fun context _ => by
      rw [length_runTiles]
      exact halone) hdst
  have hsame := hfanned.result_eq h hsingle hdst fun i t ht row column byte hholds hbyte => by
    rw [Nat.zero_add, Nat.mod_one, hcomputed i t ht row column byte hholds hbyte,
      halone_computed i t ht row column byte hholds hbyte]
  obtain ⟨out, hcompact, hlength, hout⟩ := hfanned
  rw [hdst] at hcompact
  have hrun : fanned = .ok (store output outputOffset out) := run_eq hfits hcompact
  refine ⟨hrun.trans (run_eq hfits (hsame.symm.trans hcompact)).symm, fun _ =>
    ⟨_, hrun, length_store _ _ _, fun i t ht row column byte hholds hbyte => ?_⟩⟩
  have hk : denseByte (plan.shape.outputWidth plan.kernels) bytesPerPixel row column byte <
      out.length := by
    obtain ⟨hrow, hcolumn⟩ := pixel_lt_image h ht hholds
    have hpixel := BandGeometry.lane_lt hrow hcolumn
    rw [Nat.mul_comm (plan.shape.outputHeight _)] at hpixel
    rw [hlength, hdst]
    exact BandGeometry.lane_lt hpixel hbyte
  rw [getElem?_store_mem (by omega) (Nat.le_add_right _ _) (by omega), Nat.add_sub_cancel_left,
    hout i t ht row column byte hholds hbyte, hcomputed i t ht row column byte hholds hbyte]

end Plans

/-- A buffer after a copy, with what it held where the copy is refused. -/
def copiedInto (source : Bytes) (copy : ReplicaCopy) (buffer : Bytes) : Bytes :=
  match applyReplicaCopy true source copy buffer with
  | .ok out => out
  | .error _ => buffer

/-- The operands after the copies into buffers. -/
def copiedOperands (plan : ConvPlan) (staged : StagedOperands) (replicas : Nat)
    (source buffers : Operand → Bytes) : Nat → Operand → Bytes
  | 0 => source
  | index + 1 => fun
    | .input => copiedInto (source .input) (plannedReplicaInput plan staged.input replicas index)
        (buffers .input)
    | .weights => copiedInto (source .weights) (wholeCopy staged.weights) (buffers .weights)
    | .bias => copiedInto (source .bias) (wholeCopy staged.bias) (buffers .bias)

/-- No copy of an accepted plan is refused, so every dispatch has the operands of a fanned-out one. -/
theorem fannedOperands_copied {policy : PlanningPolicy} {shape : Shape} {kernels : Kernels}
    {plan : ConvPlan} (h : Accepted policy shape kernels plan) {staged : StagedOperands}
    (hstaged : staged.input.Holds shape.width shape.height) {replicas : Nat}
    (hreplicas : replicas < plan.tiles.length) {source buffers : Operand → Bytes}
    (hsource : staged.Within source) (hbuffers : staged.Within buffers) :
    FannedOperands plan staged replicas source
      (copiedOperands plan staged replicas source buffers) where
  home := rfl
  input index hindex := by
    obtain ⟨out, hcopy, -⟩ :=
      sibling_windows h hstaged hreplicas hindex hsource.input hbuffers.input
    refine ⟨buffers .input, hbuffers.input, hcopy.trans ?_⟩
    simp only [copiedOperands, copiedInto, hcopy]
  weights index _ := .inl ⟨buffers .weights, hbuffers.weights, rfl⟩
  bias index _ := ⟨buffers .bias, hbuffers.bias, rfl⟩

/-- A stem's operands: its binding, and a byte each of weights and bias. -/
def stemStaged : StagedOperands := ⟨.direct 6 301056, 1, 1⟩

/-- A job that adds the bias to the first byte of its window. -/
def stemJob (i : Nat) :
    TileJob (TileReads stemPlan stemStaged i) (tileWrites stemPlan 16 none i) where
  value operands _ := (stemPlan.tiles[i]?).elim 0 fun t =>
    (operands .input).getD ((t.rows.inFirst * 224 + t.columns.inFirst) * 6) 0 +
      (operands .bias).getD 0 0
  reads_only operands operands' hagree k hwrites := by
    cases ht : stemPlan.tiles[i]? with
    | none => rfl
    | some t =>
      obtain ⟨⟨hrows, -⟩, hcolumns, -⟩ :=
        (tiled_convolution_eq stem_accepted).window t (List.mem_of_getElem? ht)
      have hreads : TileReads stemPlan stemStaged i .input
          ((t.rows.inFirst * 224 + t.columns.inFirst) * 6) := by
        exact ⟨t, ht, t.rows.inFirst, t.columns.inFirst, 0, ⟨le_rfl, Nat.lt_add_of_pos_right hrows⟩,
          ⟨le_rfl, Nat.lt_add_of_pos_right hcolumns⟩, show 0 < 6 by decide, rfl⟩
      have hbias : TileReads stemPlan stemStaged i .bias 0 := Nat.one_pos
      simp only [Option.elim_some, List.getD_eq_getElem?_getD, hagree _ _ hreads, hagree _ _ hbias]

theorem fanned_out_eq_stem :
    let source : Operand → Bytes := fun _ => List.replicate 301056 7
    let buffers : Operand → Bytes := fun _ => List.replicate 301056 0
    let output : Bytes := List.replicate 200704 0
    (plannedCompaction stemPlan 2 0 200704 16 16 none).run (runTiles stemJob (· % 3)
        (copiedOperands stemPlan stemStaged 2 source buffers) [4, 2, 0, 3, 1] fun _ => output) output =
      (plannedCompaction stemPlan 0 0 200704 16 16 none).run (runTiles stemJob (fun _ => 0)
        (fun _ => source) (List.range 5) fun _ => output) output := by
  intro source buffers output
  have hwithin : ∀ byte : UInt8, stemStaged.Within fun _ => List.replicate 301056 byte := by
    intro byte
    constructor <;> rw [List.length_replicate] <;> decide
  have houtput : 200704 ≤ output.length := List.length_replicate.ge
  have hstaged : stemStaged.input.Holds stemShape.width stemShape.height := .direct (by decide)
  have htiles : 2 < stemPlan.tiles.length := by decide
  have hblocks : 16 ≤ 1 * 16 := by decide
  have hscratched : Scratched stemPlan 16 16 200704 none := .shared (by decide) hblocks (by decide)
  have hoperands := fannedOperands_copied stem_accepted hstaged htiles (hwithin 7) (hwithin 0)
  have hall : ∀ i < stemPlan.tiles.length, i ∈ [4, 2, 0, 3, 1] := by decide
  exact (fanned_out_eq stem_accepted hscratched (fun _ => hstaged) stemJob htiles (hwithin 7) hoperands
    (fun _ _ => houtput) houtput hall ((Nat.zero_add _).trans_le houtput)).1

end IreeRocket.FanOut
