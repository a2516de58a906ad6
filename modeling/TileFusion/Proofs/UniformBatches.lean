import TileFusion.Proofs.Acceptance
import TileFusion.Proofs.ErrorReports
import TileFusion.Proofs.FusedStages

/-!
# One shape for all stages

A build never compares what two stages write, and it compares batches with the accumulator before it
clamps them to the tiles that there are. What a kernel relies on is more than that:

> `outputs_uniform`: all outputs of a built pipeline have one shape, made of whole tiles; so all
> stages go through the same batches, and a batch has at least one tile and never more than the
> accumulator holds.

The shape is handed on from stage to stage (`isChain_dims`), and the rest is known of each stage
since it was resolved (`Resolves.capacity`).
-/

namespace TileFusion

/-! ## Tiles of a shape -/

theorem Dims.Whole.tileRows_eq {d : Dims} (h : d.Whole) : d.tileRows = d.rows / tileSide := by
  obtain ⟨-, -, ⟨k, hk⟩, -⟩ := h
  unfold Dims.tileRows tileSide at *
  omega

theorem Operand.Counted.tiles_of_whole {o : Operand} (h : o.Counted) (hw : o.dims.Whole) :
    o.tiles = o.dims.rows / tileSide * (o.dims.cols / tileSide) := by
  rw [h, hw.tileRows_eq, hw.tileCols_eq.1]

/-- The result of a matrix product is made of whole tiles because both factors are. -/
theorem StageView.Measured.wholeOutput {v : StageView} (hm : v.Measured) :
    v.output.dims.Whole := by
  by_cases hmul : v.stage.spec.arithmetic = .matmul
  · obtain ⟨hdims, -, -⟩ := hm.product hmul
    obtain ⟨hrows, -, hrowsDvd, -⟩ := hm.wholeA
    obtain ⟨-, hcols, -, hcolsDvd⟩ := hm.wholeB
    rw [hdims]
    exact ⟨hrows, hcols, hrowsDvd, hcolsDvd⟩
  · rw [← hm.copied hmul]
    exact hm.wholeA

theorem accumulatorCapacity_le (platform : Platform) (wide : Bool) (sync : DestSync) :
    accumulatorCapacity platform wide sync ≤ 16 := by
  cases platform <;> cases wide <;> cases sync <;> decide

/-! ## In a pipeline -/

/-- The stage writes a matrix of the shape `d`, in batches that the accumulator can hold. -/
structure StageView.Batched (settings : Settings) (d : Dims) (v : StageView) : Prop where
  dims : v.output.dims = d
  tiles : v.output.tiles = d.rows / tileSide * (d.cols / tileSide)
  /-- The batches follow from the shape and the settings alone. -/
  batches : v.batches = .split (d.rows / tileSide * (d.cols / tileSide))
    (min settings.batchSize (d.rows / tileSide * (d.cols / tileSide)))
  batchSize : v.stage.batchSize = min settings.batchSize v.output.tiles
  one_le : 1 ≤ v.stage.batchSize
  fits : v.stage.batchSize ≤ v.stage.capacity
  capacity : v.stage.capacity =
    accumulatorCapacity settings.platform v.stage.wideDest settings.destSync
  capacity_le : v.stage.capacity ≤ 16

section Built

variable {r : Registry} {specs : List StageSpec} {settings : Settings} {p : Pipeline}

/-- The outputs of a built pipeline have one shape, since neighbours do. -/
theorem dims_eq_of_build (hr : r.Declared) (hp : (Pipeline.build r specs settings).value = .ok p) :
    ∀ v ∈ p.views, ∀ w ∈ p.views, v.output.dims = w.output.dims := by
  have hmap : (p.views.map (·.output.dims)).IsChain Eq :=
    (List.isChain_map _).mpr ((isChain_dims hr hp).imp fun _ _ h => h.symm)
  intro v hv w hw
  exact (List.isChain_iff_pairwise.mp hmap).forall_of_forall (fun _ _ => rfl)
    (List.mem_map_of_mem hv) (List.mem_map_of_mem hw)

/-- What a stage keeps of its resolution: the accumulator has room for a batch as it was asked for,
and the batch was clamped afterwards. -/
theorem batch_of_build (hr : r.Declared) (hp : (Pipeline.build r specs settings).value = .ok p) :
    ∀ v ∈ p.views, v.stage.batchSize = min settings.batchSize v.output.tiles ∧
      settings.batchSize ≤ v.stage.capacity ∧
      v.stage.capacity =
        accumulatorCapacity settings.platform v.stage.wideDest settings.destSync := by
  obtain ⟨-, stages, final, placed, hall, hplace, rfl⟩ := build_eq_ok_iff.mp hp
  intro v hv
  obtain ⟨s, hs, rfl⟩ := List.mem_map.mp hv
  obtain ⟨r', site, a, b, c, formats, hres, rfl, -, -, o, ho, hoc, -⟩ :=
    hall.exists_resolves hr.wellFormed s hs
  have htiles : ((⟨settings, stages, placed⟩ : Pipeline).view
      (stageOf settings r' site a b c formats)).output.tiles = c.tiles := by
    show ((⟨settings, stages, placed⟩ : Pipeline).operand _).tiles = c.tiles
    rw [Operand.tiles_congr (contents_operand settings stages hplace ho), Operand.tiles, hoc]
    rfl
  rw [htiles]
  exact ⟨rfl, hres.capacity, rfl⟩

theorem batchSize_pos_of_build (hp : (Pipeline.build r specs settings).value = .ok p) :
    1 ≤ settings.batchSize := by
  obtain ⟨hoverall, -⟩ := build_eq_ok_iff.mp hp
  exact ((overallErrors_eq_nil_iff _ _).mp hoverall).2.1

/-- Every stage of a built pipeline batches as its settings say, as far as its tiles go. -/
theorem batched_of_build (hr : r.Declared) (hp : (Pipeline.build r specs settings).value = .ok p) :
    ∀ v ∈ p.views, v.Batched settings v.output.dims := by
  intro v hv
  have hm := measured_of_build hr hp v hv
  have htiles := hm.countedOutput.tiles_of_whole hm.wholeOutput
  have hpos := hm.countedOutput.tiles_pos hm.wholeOutput
  have hone := batchSize_pos_of_build hp
  obtain ⟨hbatch, hroom, hcapacity⟩ := batch_of_build hr hp v hv
  have hle : v.stage.capacity ≤ 16 := hcapacity ▸ accumulatorCapacity_le ..
  refine ⟨rfl, htiles, ?_, hbatch, by omega, by omega, hcapacity, hle⟩
  rw [StageView.batches, hbatch, htiles]

theorem views_ne_nil_of_build (hp : (Pipeline.build r specs settings).value = .ok p) :
    p.views ≠ [] := by
  obtain ⟨hoverall, -⟩ := build_eq_ok_iff.mp hp
  have hspecs := ((overallErrors_eq_nil_iff _ _).mp hoverall).1
  intro hnil
  have hstages : p.stages = [] := List.map_eq_nil_iff.mp hnil
  apply hspecs
  rw [← (spec_stages_of_build hp).1, hstages]
  rfl

/-- **All outputs of a built pipeline have one shape, and every stage goes through it in batches
that fit in the accumulator.** -/
theorem outputs_uniform (hr : r.Declared) (hp : (Pipeline.build r specs settings).value = .ok p) :
    p.views ≠ [] ∧ ∃ d : Dims, d.Whole ∧ 1 ≤ d.rows / tileSide * (d.cols / tileSide) ∧
      ∀ v ∈ p.views, v.Batched settings d := by
  have hne := views_ne_nil_of_build hp
  obtain ⟨w, hw⟩ := List.exists_mem_of_ne_nil _ hne
  have hm := measured_of_build hr hp w hw
  refine ⟨hne, w.output.dims, hm.wholeOutput, ?_, ?_⟩
  · rw [← hm.countedOutput.tiles_of_whole hm.wholeOutput]
    exact hm.countedOutput.tiles_pos hm.wholeOutput
  · intro v hv
    rw [← dims_eq_of_build hr hp v hv w hw]
    exact batched_of_build hr hp v hv

end Built

/-! ## A product and its copy -/

/-- A product whose result is neither shaped like one factor nor like the other, copied out of the
accumulator. -/
def productSpecs : List StageSpec :=
  [{ loader := ⟨.matmul, "a", some "b", .none, false, false⟩
     arithmetic := .matmul
     nonlinear := []
     output := "product"
     outputFormat := .float16b
     fidelity := .hifi4
     unpackToDest := false },
   { loader := ⟨.direct, "product", none, .sourceA, false, false⟩
     arithmetic := .datacopy
     nonlinear := []
     output := "copy"
     outputFormat := .float32
     fidelity := .lofi
     unpackToDest := false }]

/-- Six tiles in batches of four: the copy needs a wide accumulator, which holds no more. -/
theorem outputs_uniform_product :
    ∃ p, (Pipeline.build (columnRegistry ⟨⟨64, 96⟩, .float16b, 6, 12288⟩) productSpecs
        { fusedSettings with batchSize := 4 }).value = .ok p ∧
      (∃ v ∈ p.views, v.stage.wideDest = true ∧ v.stage.capacity = 4) ∧
      ∃ d : Dims, d.Whole ∧ ∀ v ∈ p.views, v.Batched { fusedSettings with batchSize := 4 } d := by
  have hr : (columnRegistry ⟨⟨64, 96⟩, .float16b, 6, 12288⟩).Declared :=
    .input "b" ⟨64, 96⟩ .float16b none declared_columnInput rfl
  obtain ⟨p, hp, hviews⟩ := exists_build_of_any (columnRegistry ⟨⟨64, 96⟩, .float16b, 6, 12288⟩)
    productSpecs { fusedSettings with batchSize := 4 }
    (fun p => p.views.any fun v => v.stage.wideDest && v.stage.capacity == 4) (by decide +kernel)
  obtain ⟨v, hv, hcheck⟩ := List.any_eq_true.mp hviews
  obtain ⟨-, d, hwhole, -, hbatched⟩ := outputs_uniform hr hp
  exact ⟨p, hp, ⟨v, hv, by simpa using hcheck⟩, d, hwhole, hbatched⟩

end TileFusion
