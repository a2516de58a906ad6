import TileFusion.Proofs.WrittenLoops
import TileFusion.Proofs.CheckedCode
import TileFusion.Proofs.AccumulatorPlaces
import TileFusion.Proofs.FusedForms

/-!
# Walks over the tiles of an operand

Most stages read the tile that they work on. A matrix product and a tilizing load do not: they find
their tiles by an expression over the place in the output, with divisions by the number of columns
in it. This file runs the code of a built pipeline in words and looks at what the loads of such a
stage bring in:

> `tile_walks`: a product of `R` × `K` by `K` × `C` tiles brings in, for each tile (r, c) of its
> output, the tiles (r, k) and (k, c) for k = 0, 1, … in this order, and computes as often at the
> place of that tile; a tilizing load starts at the first tile of the tile's row in its source and
> goes to its column.

Nothing is cut to a word on the way, and all tiles lie in their operands.
-/

namespace TileFusion

/-! ## Rows and columns -/

/-- The tiles of a grid, row by row. -/
theorem flatMap_range_mul {β : Type} (rows cols : Nat) (f : Nat → List β) :
    (List.range (rows * cols)).flatMap f =
      (List.range rows).flatMap fun r => (List.range cols).flatMap fun c => f (r * cols + c) := by
  rw [← range_mul, List.flatMap_assoc]
  congr 1
  funext r
  rw [List.flatMap_map]

theorem div_of_lt_cols {r c cols : Nat} (h : c < cols) : (r * cols + c) / cols = r := by
  rw [Nat.add_comm, Nat.add_mul_div_right _ _ (Nat.zero_lt_of_lt h), Nat.div_eq_of_lt h,
    Nat.zero_add]

/-! ## Runs of a stage -/

/-- The tile that a call works on, and the tiles that its index expressions find, in words. -/
def Step.reads (s : Step) : Nat × List (Slot × Nat) :=
  ((s.vars "tile_idx").toNat, s.call.indices.map fun x => (x.1, (x.2.word s.vars).toNat))

/-- A call with its place in the batch and the step along the inner dimension. -/
def Step.place (s : Step) : Call × Nat × Nat :=
  (s.call, (s.vars "i").toNat, (s.vars "kt").toNat)

/-- The calls that the code of a thread makes. -/
def ThreadProgram.steps (thread : Thread) (t : ThreadProgram) : List Step :=
  runAll (Turn.start.variables thread) (codeOf thread .single t.body)

namespace StageView

/-- The calls that the code of a stage makes in a thread. -/
def steps (v : StageView) (thread : Thread) : List Step :=
  runAll (Turn.start.variables thread) (codeOf thread .single (v.contribution thread).body)

/-- The loads of a stage. -/
def loadSteps (v : StageView) : List Step :=
  (v.steps .unpack).filter fun s => s.call.effect = .load

/-- The computations of a stage. -/
def computeSteps (v : StageView) : List Step :=
  (v.steps .math).filter fun s => s.call.effect = .compute

end StageView

/-- A thread runs the code of the stages, one after the other. -/
theorem Pipeline.steps_thread (p : Pipeline) (thread : Thread) :
    (p.lower.thread thread).steps thread = p.views.flatMap (·.steps thread) := by
  have hflat : ∀ vs : List StageView, runAll (Turn.start.variables thread)
      (codeOf thread .single (vs.flatMap fun v => (v.contribution thread).body)) =
        vs.flatMap (·.steps thread) := by
    intro vs
    induction vs with
    | nil => rfl
    | cons v vs ih =>
      rw [List.flatMap_cons, List.flatMap_cons, codeOf_append,
        runAll_append (closed_codeOf _ _), ih]
      rfl
  rw [ThreadProgram.steps, p.body_thread, hflat]

namespace StageView

variable {v : StageView}

/-- Every loop of a stage has a word for its count. -/
structure CountsInWords (v : StageView) : Prop where
  fed : v.Fed
  tiles : v.output.tiles < wordLimit
  batch : v.batches.batchSize < wordLimit
  inner : v.stage.innerTiles < wordLimit

theorem inWords_tileBody (h : v.CountsInWords) (call : Call) : (v.tileBody call).InWords := by
  unfold tileBody
  cases v.stage.spec.arithmetic with
  | matmul => exact ⟨by decide, h.inner, trivial, trivial⟩
  | _ => trivial

theorem inWords_arithmetic (h : v.CountsInWords) : InWordsAll v.arithmeticSection.body := by
  obtain ⟨remark, init, compute, cleanUp, hbody, -⟩ := v.exists_compute
  rw [hbody]
  exact ⟨trivial, trivial, ⟨inWords_tileBody h compute, trivial⟩, inWordsAll_map_call cleanUp⟩

theorem inWords_nonlinear (v : StageView) (unit : Nonlinear) :
    InWordsAll (v.nonlinearSection unit).body := by
  unfold nonlinearSection
  cases unit <;> simp

theorem inWords_contribution (h : v.CountsInWords) (t : Thread) :
    InWordsAll (v.contribution t).body := by
  have hfull : v.batches.fullBatches < wordLimit :=
    Nat.lt_of_le_of_lt (Nat.div_le_self ..) h.tiles
  have hrest : v.batches.remainder < wordLimit := (BatchShape.split_remainder_lt ..).trans h.batch
  cases t with
  | unpack =>
    obtain ⟨-, load, hload, -⟩ := exists_load h.fed
    by_cases hi : v.index = 0 <;>
      simp [contribution, unpackSection, bufferDeclaration, hi, hfull, h.batch, hrest, hload,
        inWords_tileBody h load]
  | math =>
    have hunits : InWordsAll
        ((v.stage.spec.nonlinear.map v.nonlinearSection).flatMap (·.body)) := by
      refine inWordsAll_flatMap fun x hx => ?_
      obtain ⟨unit, -, rfl⟩ := List.mem_map.mp hx
      exact v.inWords_nonlinear unit
    simp [contribution, mathSection, hfull, h.batch, hrest, inWords_arithmetic h, hunits]
  | pack =>
    cases ha : v.stage.spec.arithmetic <;> by_cases hl : v.isLast = true <;>
      simp [contribution, packSection, bufferDeclaration, ha, hl, hfull, h.batch, hrest]

/-- The code of a stage makes the calls of the stage. -/
theorem steps_eq (h : v.CountsInWords) (t : Thread) :
    v.steps t = (v.events t).map (Event.step t) := by
  rw [steps, runAll_codeOf _ (inWords_contribution h t) TileScope.inWords_single,
    v.unrollAll_contribution]

/-! ## The loads and the computations of a stage -/

theorem filter_effect {effect : Effect} {call : Call} {es : List Event}
    (h : ∀ e ∈ es, e.call.effect = effect → e.call = call) :
    (es.filter fun e => e.call.effect = effect) = (turnsOf effect es).map (Event.mk call) := by
  rw [turnsOf, List.map_map]
  refine ((List.map_congr_left fun e he => ?_).trans (List.map_id _)).symm
  obtain ⟨he, heffect⟩ := List.mem_filter.mp he
  show Event.mk call e.turn = e
  rw [← h e he (of_decide_eq_true heffect)]

theorem filter_step {effect : Effect} {t : Thread} (es : List Event) :
    ((es.map (Event.step t)).filter fun s => s.call.effect = effect) =
      (es.filter fun e => e.call.effect = effect).map (Event.step t) :=
  List.filter_map

theorem loadSteps_eq (h : v.CountsInWords) {load : Call}
    (hload : v.unpacking.perTile = v.tileBody load) :
    v.loadSteps = (v.batchTurns.flatMap v.workTurns).map fun turn =>
      ⟨load, turn.variables .unpack⟩ := by
  obtain ⟨⟨hinit, -⟩, -⟩ := exists_load h.fed
  obtain ⟨config, hconfig, -, hevents⟩ := unpackEvents_eq hload
  have hcall : ∀ e ∈ v.unpackEvents, e.call.effect = .load → e.call = load := by
    intro e he heffect
    rw [hevents] at he
    simp only [List.mem_cons, List.mem_append, List.mem_flatMap, List.mem_map] at he
    rcases he with rfl | he | ⟨x, -, rfl | ⟨turn, -, rfl⟩⟩
    · cases hconfig.symm.trans heffect
    · split at he
      next => simp at he
      next =>
        rw [List.mem_singleton.mp he] at heffect
        cases heffect
    · cases hinit.symm.trans heffect
    · rfl
  rw [loadSteps, steps_eq h, filter_step]
  show (v.unpackEvents.filter _).map _ = _
  rw [filter_effect hcall, turnsOf_load h.fed, List.map_map]
  rfl

theorem computeSteps_eq (h : v.CountsInWords) (hproduct : v.stage.spec.arithmetic = .matmul) :
    v.computeSteps = (v.batchTurns.flatMap v.workTurns).map fun turn =>
      ⟨.matmul v.stage.spec.effectiveFidelity, turn.variables .math⟩ := by
  obtain ⟨configs, compute, claim, fill, before, behind, hconfigs, -, hcompute, hclaim, hfill,
    hbefore, hbehind, hevents⟩ := v.mathEvents_eq
  have hcall : ∀ e ∈ v.mathEvents, e.call.effect = .compute →
      e.call = .matmul v.stage.spec.effectiveFidelity := by
    intro e he heffect
    rw [hevents] at he
    simp only [List.mem_cons, List.mem_append, List.mem_flatMap, List.mem_map, List.not_mem_nil,
      or_false] at he
    rcases he with he | ⟨x, -, rfl | ((he | ⟨turn, -, rfl⟩) | he) | rfl⟩
    · cases (hconfigs e he).symm.trans heffect
    · cases hclaim.symm.trans heffect
    · cases (hbefore x e he).symm.trans heffect
    · exact hcompute hproduct
    · cases (hbehind x e he).symm.trans heffect
    · cases (effect_of_fill? hfill).symm.trans heffect
  rw [computeSteps, steps_eq h, filter_step]
  show (v.mathEvents.filter _).map _ = _
  rw [filter_effect hcall, turnsOf_compute, List.map_map]
  rfl

end StageView

/-! ## No part of an expression leaves a word -/

namespace Index

variable {turn : Turn} {rows cols inner : Nat}

theorem exact_leftFactor (hpos : 0 < cols) (hcols : cols < wordLimit) (hinner : inner < wordLimit)
    (hword : turn "tile_idx" < wordLimit) (htile : turn "tile_idx" < rows * cols)
    (hstep : turn "kt" < inner) (hleft : rows * inner < wordLimit) :
    (leftFactor cols inner).Exact turn := by
  have hlt := leftFactor_lt htile hstep
  refine ⟨⟨⟨hword, hcols, Nat.ne_of_gt hpos⟩, hinner, ?_⟩, hstep.trans hinner, ?_⟩
  · show turn "tile_idx" / cols * inner < wordLimit
    omega
  · show turn "tile_idx" / cols * inner + turn "kt" < wordLimit
    omega

theorem exact_rightFactor (hpos : 0 < cols) (hcols : cols < wordLimit) (hinner : inner < wordLimit)
    (hword : turn "tile_idx" < wordLimit) (hstep : turn "kt" < inner)
    (hright : inner * cols < wordLimit) : (rightFactor cols).Exact turn := by
  have hlt := rightFactor_lt (turn "tile_idx") hpos hstep
  refine ⟨⟨hstep.trans hinner, hcols, ?_⟩, ⟨hword, hcols, Nat.ne_of_gt hpos⟩, ?_⟩
  · show turn "kt" * cols < wordLimit
    omega
  · show turn "kt" * cols + turn "tile_idx" % cols < wordLimit
    omega

theorem exact_tilizedRow (hpos : 0 < cols) (hcols : cols < wordLimit)
    (hword : turn "tile_idx" < wordLimit) : (tilizedRow cols).Exact turn :=
  ⟨⟨hword, hcols, Nat.ne_of_gt hpos⟩, hcols, Nat.lt_of_le_of_lt (Nat.div_mul_le_self ..) hword⟩

theorem exact_tilized (hpos : 0 < cols) (hcols : cols < wordLimit)
    (hword : turn "tile_idx" < wordLimit) :
    ((tilizedRow cols).add (tilizedColumn cols)).Exact turn := by
  refine ⟨exact_tilizedRow hpos hcols hword, ⟨hword, hcols, Nat.ne_of_gt hpos⟩, ?_⟩
  show ((tilizedRow cols).add (tilizedColumn cols)).eval turn < wordLimit
  rwa [eval_tilized]

end Index

namespace StageView

variable {v : StageView}

/-- The tiles of all operands are counted in words. -/
structure OperandsInWords (v : StageView) : Prop extends v.CountsInWords where
  first : v.bufferA.tiles < wordLimit
  second : v.bufferB.tiles < wordLimit

/-- No load of a stage computes with more than words. -/
theorem exact_of_loading (hm : v.Measured) (hw : v.OperandsInWords)
    {indices : List (Slot × Index)} (h : Loading v indices) {turn : Turn}
    (htile : turn "tile_idx" < v.output.tiles)
    (hstep : v.stage.spec.arithmetic = .matmul → turn "kt" < v.stage.innerTiles) :
    ∀ x ∈ indices, x.2.Exact turn := by
  have hword : turn "tile_idx" < wordLimit := htile.trans hw.tiles
  rw [hm.countedOutput] at htile
  have hpos : 0 < v.output.dims.tileCols := Nat.pos_of_mul_pos_left (Nat.zero_lt_of_lt htile)
  have hcols : v.output.dims.tileCols < wordLimit := by
    have hrows : 0 < v.output.dims.tileRows := Nat.pos_of_mul_pos_right (Nat.zero_lt_of_lt htile)
    refine Nat.lt_of_le_of_lt (Nat.le_mul_of_pos_left _ hrows) ?_
    exact hm.countedOutput ▸ hw.tiles
  have hzero : (Index.const 0).Exact turn := show 0 < wordLimit by decide
  have hplace : Index.tile.Exact turn := hword
  cases h with
  | pair =>
    have hsecond : (Index.second v.loader.kind.spread).Exact turn := by
      cases v.loader.kind.spread with
      | scalar => exact hzero
      | _ => exact hplace
    simpa using ⟨hplace, hsecond⟩
  | single => simpa using hplace
  | reduce => simpa using ⟨hplace, hzero⟩
  | matmul hmul =>
    obtain ⟨hA, hB⟩ := hm.product_tiles hmul
    have hleft := Index.exact_leftFactor hpos hcols hw.inner hword htile (hstep hmul)
      (hA ▸ hw.first)
    have hright := Index.exact_rightFactor hpos hcols hw.inner hword (hstep hmul) (hB ▸ hw.second)
    simpa using ⟨hzero, hleft, hright⟩
  | tilize =>
    simpa using ⟨Index.exact_tilizedRow hpos hcols hword, Index.exact_tilized hpos hcols hword⟩

/-- What a load reads is what its expressions say in numbers. -/
theorem reads_of_exact {call : Call} {turn : Turn} (hword : turn "tile_idx" < wordLimit)
    (hexact : ∀ x ∈ call.indices, x.2.Exact turn) :
    (⟨call, turn.variables .unpack⟩ : Step).reads =
      (turn "tile_idx", call.indices.map fun x => (x.1, x.2.eval turn)) := by
  have htile : (turn.variables .unpack "tile_idx").toNat = turn "tile_idx" :=
    Turn.toNat_variables (by simp) hword
  refine Prod.ext htile (List.map_congr_left fun x hx => ?_)
  have hseen : Thread.unpack = .math → x.2.Plain := fun h => absurd h (by decide)
  obtain ⟨hwords, heval⟩ := (hexact x hx).variables hseen
  show (x.1, (x.2.word (turn.variables .unpack)).toNat) = (x.1, x.2.eval turn)
  rw [Index.toNat_word hwords, heval]

/-- A turn in which a tile is worked on, by its tile, its place and its step. -/
theorem lt_of_mem_work {turn : Turn} (h : turn ∈ v.batchTurns.flatMap v.workTurns) :
    turn "tile_idx" < v.output.tiles ∧ turn "i" < v.batches.batchSize ∧
      (v.stage.spec.arithmetic = .matmul → turn "kt" < v.stage.innerTiles) := by
  obtain ⟨x, hx, hturn⟩ := List.mem_flatMap.mp h
  obtain ⟨htile, hstep⟩ := lt_of_mem_workTurns hx hturn
  refine ⟨htile, ?_, hstep⟩
  have hcoords : turn.coords ∈ (v.batchTurns.flatMap v.workTurns).map Turn.coords :=
    List.mem_map_of_mem h
  rw [coords_work] at hcoords
  obtain ⟨n, -, hn⟩ := List.mem_flatMap.mp hcoords
  have hplace : turn "i" = n % v.batches.batchSize :=
    congrArg Prod.snd (List.eq_of_mem_replicate hn)
  rw [hplace]
  exact Nat.mod_lt _ (Nat.zero_lt_of_lt (BatchShape.split_remainder_lt ..))

section Reads

variable (hm : v.Measured) (hw : v.OperandsInWords)
include hm hw

/-- The loads of a stage, one for each turn of its loops, read what their expressions say. -/
theorem exists_reads : ∃ load : Call, v.unpacking.perTile = v.tileBody load ∧
    (∀ s ∈ v.loadSteps, s.call = load ∧ ∀ x ∈ s.call.indices, x.2.Exact s.vars.turn) ∧
    v.loadSteps.map Step.reads = (v.batchTurns.flatMap v.workTurns).map fun turn =>
      (turn "tile_idx", load.indices.map fun x => (x.1, x.2.eval turn)) := by
  obtain ⟨-, load, hload, -⟩ := exists_load hw.fed
  have hloading := loading_of_load hm.combination hload
  have hexact : ∀ turn ∈ v.batchTurns.flatMap v.workTurns, ∀ x ∈ load.indices, x.2.Exact turn := by
    intro turn hturn
    obtain ⟨htile, -, hstep⟩ := lt_of_mem_work hturn
    exact exact_of_loading hm hw hloading htile hstep
  refine ⟨load, hload, ?_, ?_⟩
  · intro s hs
    rw [loadSteps_eq hw.toCountsInWords hload] at hs
    obtain ⟨turn, hturn, rfl⟩ := List.mem_map.mp hs
    refine ⟨rfl, fun x hx => ?_⟩
    exact ((hexact turn hturn x hx).variables fun hm => absurd hm (by decide)).1
  · rw [loadSteps_eq hw.toCountsInWords hload, List.map_map]
    refine List.map_congr_left fun turn hturn => ?_
    exact reads_of_exact ((lt_of_mem_work hturn).1.trans hw.tiles) (hexact turn hturn)

/-- They stay in the operands, except for a copy that spreads. -/
theorem reads_lt (hs : ¬v.SpreadsCopy) :
    ∀ s ∈ v.loadSteps, ∀ x ∈ s.reads.2, x.2 < (v.buffer x.1).tiles := by
  obtain ⟨load, hload, -, hreads⟩ := exists_reads hm hw
  intro s hstep x hx
  have hmem : s.reads ∈ v.loadSteps.map Step.reads := List.mem_map_of_mem hstep
  rw [hreads] at hmem
  obtain ⟨turn, hturn, heq⟩ := List.mem_map.mp hmem
  rw [← heq] at hx
  obtain ⟨y, hy, rfl⟩ := List.mem_map.mp hx
  obtain ⟨htile, -, hkt⟩ := lt_of_mem_work hturn
  exact eval_lt_of_loading hm (loading_of_load hm.combination hload) htile hkt hy fun _ => hs

end Reads

/-! ## Products -/

/-- A product of `rows` × `inner` by `inner` × `cols` tiles. For each tile of its output, row by
row, it brings in the tiles of one row of the first factor and of one column of the second, pair by
pair, and computes as often at the place of that tile. The first two reads of a load are the
addresses of the factors. -/
structure ProductWalk (v : StageView) (rows inner cols : Nat) : Prop where
  sources : v.stage.unpackedA = v.stage.sourceA ∧ v.stage.sourceB = some v.stage.unpackedB
  left : v.bufferA.dims.tileRows = rows ∧ v.bufferA.dims.tileCols = inner ∧
    v.bufferA.tiles = rows * inner
  right : v.bufferB.dims.tileRows = inner ∧ v.bufferB.dims.tileCols = cols ∧
    v.bufferB.tiles = inner * cols
  output : v.output.dims.tileRows = rows ∧ v.output.dims.tileCols = cols ∧
    v.output.tiles = rows * cols
  steps : v.stage.innerTiles = inner
  calls : ∀ s ∈ v.loadSteps, ∃ wordsA wordsB,
    s.call = .unpackMatmul v.index cols inner wordsA wordsB
  reads : v.loadSteps.map Step.reads =
    (List.range rows).flatMap fun r => (List.range cols).flatMap fun c =>
      (List.range inner).map fun k => (r * cols + c,
        [(.first, 0), (.second, 0), (.first, r * inner + k), (.second, k * cols + c)])
  exact : ∀ s ∈ v.loadSteps, ∀ x ∈ s.call.indices, x.2.Exact s.vars.turn
  inside : ∀ s ∈ v.loadSteps, ∀ x ∈ s.reads.2, x.2 < (v.buffer x.1).tiles
  computes : v.computeSteps.map Step.place =
    (List.range (rows * cols)).flatMap fun n => (List.range inner).map fun k =>
      (.matmul v.stage.spec.effectiveFidelity, n % v.batches.batchSize, k)

/-- A stage that tilizes `rows` × `cols` tiles. For each tile it starts at the first tile of its row
in the source, and goes to its column. -/
structure TilizeWalk (v : StageView) (rows cols : Nat) : Prop where
  source : v.bufferA.dims.tileRows = rows ∧ v.bufferA.dims.tileCols = cols ∧
    v.bufferA.tiles = rows * cols
  output : v.output.dims.tileRows = rows ∧ v.output.dims.tileCols = cols ∧
    v.output.tiles = rows * cols
  calls : ∀ s ∈ v.loadSteps, s.call = .unpackTilize v.index cols
  reads : v.loadSteps.map Step.reads =
    (List.range rows).flatMap fun r => (List.range cols).map fun c =>
      (r * cols + c, [(.first, r * cols), (.first, r * cols + c)])
  exact : ∀ s ∈ v.loadSteps, ∀ x ∈ s.call.indices, x.2.Exact s.vars.turn
  inside : ∀ s ∈ v.loadSteps, ∀ x ∈ s.reads.2, x.2 < (v.buffer x.1).tiles

/-- The places of a product's reads, tile by tile and step by step. -/
theorem reads_product (hm : v.Measured) (hproduct : v.stage.spec.arithmetic = .matmul) {load : Call}
    (hindices : load.indices = [(.first, .const 0), (.second, .const 0),
      (.first, .leftFactor v.output.dims.tileCols v.stage.innerTiles),
      (.second, .rightFactor v.output.dims.tileCols)]) :
    ((v.batchTurns.flatMap v.workTurns).map fun turn =>
        (turn "tile_idx", load.indices.map fun x => (x.1, x.2.eval turn))) =
      (List.range v.output.dims.tileRows).flatMap fun r =>
        (List.range v.output.dims.tileCols).flatMap fun c =>
          (List.range v.stage.innerTiles).map fun k => (r * v.output.dims.tileCols + c,
            [(.first, 0), (.second, 0), (.first, r * v.stage.innerTiles + k),
              (.second, k * v.output.dims.tileCols + c)]) := by
  let g : Nat × Nat → List (Nat × List (Slot × Nat)) := fun x =>
    (List.range v.stage.innerTiles).map fun k => (x.1, [(.first, 0), (.second, 0),
      (.first, x.1 / v.output.dims.tileCols * v.stage.innerTiles + k),
      (.second, k * v.output.dims.tileCols + x.1 % v.output.dims.tileCols)])
  have hturn : ∀ turn, (v.innerTurns turn).map (fun turn =>
      (turn "tile_idx", load.indices.map fun x => (x.1, x.2.eval turn))) = g turn.coords := by
    intro turn
    simp only [innerTurns, hproduct, List.map_map, hindices]
    rfl
  rw [v.map_work hturn, hm.countedOutput, flatMap_range_mul]
  refine List.flatMap_congr fun r _ => List.flatMap_congr fun c hc => ?_
  have hc := List.mem_range.mp hc
  show (List.range _).map _ = _
  rw [div_of_lt_cols hc, Nat.mul_add_mod_of_lt hc]

/-- The places of a product's computations, tile by tile and step by step. -/
theorem computes_product (hw : v.CountsInWords) (hproduct : v.stage.spec.arithmetic = .matmul) :
    v.computeSteps.map Step.place =
      (List.range v.output.tiles).flatMap fun n => (List.range v.stage.innerTiles).map fun k =>
        (.matmul v.stage.spec.effectiveFidelity, n % v.batches.batchSize, k) := by
  let compute : Call := .matmul v.stage.spec.effectiveFidelity
  let g : Nat × Nat → List (Call × Nat × Nat) := fun x =>
    (List.range v.stage.innerTiles).map fun k => (compute, x.2, k)
  have hturn : ∀ turn, (v.innerTurns turn).map (fun turn => (compute, turn "i", turn "kt")) =
      g turn.coords := by
    intro turn
    simp only [innerTurns, hproduct, List.map_map]
    rfl
  rw [computeSteps_eq hw hproduct, List.map_map]
  refine Eq.trans (List.map_congr_left fun turn hmem => ?_) (v.map_work hturn)
  obtain ⟨-, hplace, hstep⟩ := lt_of_mem_work hmem
  have hi : (turn.variables .math "i").toNat = turn "i" :=
    Turn.toNat_variables (by simp) (hplace.trans hw.batch)
  have hkt : (turn.variables .math "kt").toNat = turn "kt" :=
    Turn.toNat_variables (by simp) ((hstep hproduct).trans hw.inner)
  exact Prod.ext rfl (Prod.ext hi hkt)

theorem productWalk (hm : v.Measured) (hw : v.OperandsInWords)
    (hproduct : v.stage.spec.arithmetic = .matmul)
    (hsources : v.stage.unpackedA = v.stage.sourceA ∧ v.stage.sourceB = some v.stage.unpackedB) :
    v.ProductWalk v.bufferA.dims.tileRows v.bufferA.dims.tileCols v.bufferB.dims.tileCols := by
  obtain ⟨hdims, hcols, hinner⟩ := hm.product hproduct
  obtain ⟨load, hload, hcalls, hreads⟩ := exists_reads hm hw
  have hkind : v.loader.kind = .matmul := by
    have hfeeds : feeds v.loader.kind v.stage.spec.arithmetic = true := hm.combination.feeds
    cases hk : v.loader.kind <;> simp [hk, hproduct, feeds] at hfeeds ⊢
  have hcall : load = .unpackMatmul v.index v.output.dims.tileCols v.stage.innerTiles
      v.stage.formats.loadA.source.tileWords v.stage.formats.loadB.source.tileWords := by
    simp only [unpacking, tileBody, hkind, hproduct] at hload
    obtain ⟨-, -, hbody⟩ := Stmt.loop.inj hload
    exact (Stmt.call.inj (List.cons.inj hbody).1).symm
  have hrows : v.output.dims.tileRows = v.bufferA.dims.tileRows := by
    rw [hdims]
    rfl
  have hwidth : v.output.dims.tileCols = v.bufferB.dims.tileCols := by
    rw [hdims]
    rfl
  have hheight : v.bufferB.dims.tileRows = v.bufferA.dims.tileCols := by
    rw [Dims.tileRows, ← hcols]
    rfl
  have hspread : ¬v.SpreadsCopy := by
    rintro ⟨hcopy, -⟩
    cases hproduct.symm.trans hcopy
  rw [hcall, hwidth, hinner] at hcalls
  exact
    { sources := hsources
      left := ⟨rfl, rfl, hm.countedA⟩
      right := ⟨hheight, rfl, hheight ▸ hm.countedB⟩
      output := ⟨hrows, hwidth, by rw [hm.countedOutput, hrows, hwidth]⟩
      steps := hinner
      calls := fun s hs => ⟨_, _, (hcalls s hs).1⟩
      reads := by rw [hreads, reads_product hm hproduct (hcall ▸ rfl), hrows, hwidth, hinner]
      exact := fun s hs => (hcalls s hs).2
      inside := reads_lt hm hw hspread
      computes := by
        rw [computes_product hw.toCountsInWords hproduct, hm.countedOutput, hrows, hwidth, hinner] }

/-! ## Tilizing loads -/

/-- The places of a tilizing load's reads, row by row. -/
theorem reads_tilize (hm : v.Measured) (hne : v.stage.spec.arithmetic ≠ .matmul) {load : Call}
    (hindices : load.indices = [(.first, .tilizedRow v.output.dims.tileCols),
      (.first, .add (.tilizedRow v.output.dims.tileCols)
        (.tilizedColumn v.output.dims.tileCols))]) :
    ((v.batchTurns.flatMap v.workTurns).map fun turn =>
        (turn "tile_idx", load.indices.map fun x => (x.1, x.2.eval turn))) =
      (List.range v.output.dims.tileRows).flatMap fun r =>
        (List.range v.output.dims.tileCols).map fun c => (r * v.output.dims.tileCols + c,
          [(.first, r * v.output.dims.tileCols), (.first, r * v.output.dims.tileCols + c)]) := by
  let g : Nat × Nat → List (Nat × List (Slot × Nat)) := fun x =>
    [(x.1, [(.first, x.1 / v.output.dims.tileCols * v.output.dims.tileCols), (.first, x.1)])]
  have hturn : ∀ turn, (v.innerTurns turn).map (fun turn =>
      (turn "tile_idx", load.indices.map fun x => (x.1, x.2.eval turn))) = g turn.coords := by
    intro turn
    have hinner : v.innerTurns turn = [turn] := by
      unfold innerTurns
      split
      next h => exact absurd h hne
      next => rfl
    rw [hinner, hindices]
    simp [Index.eval_tilized, Index.eval_tilizedRow, g, Turn.coords]
  rw [v.map_work hturn, hm.countedOutput, flatMap_range_mul]
  refine List.flatMap_congr fun r _ => ?_
  rw [List.map_eq_flatMap]
  refine List.flatMap_congr fun c hc => ?_
  show [_] = [_]
  rw [div_of_lt_cols (List.mem_range.mp hc)]

theorem tilizeWalk (hm : v.Measured) (hw : v.OperandsInWords) (hkind : v.loader.kind = .tilize) :
    v.TilizeWalk v.output.dims.tileRows v.output.dims.tileCols := by
  obtain ⟨load, hload, hcalls, hreads⟩ := exists_reads hm hw
  have hcopy : v.stage.spec.arithmetic = .datacopy := by
    have hfeeds : feeds v.loader.kind v.stage.spec.arithmetic = true := hm.combination.feeds
    cases ha : v.stage.spec.arithmetic <;> simp [hkind, ha, feeds] at hfeeds ⊢
  have hne : v.stage.spec.arithmetic ≠ .matmul := by simp [hcopy]
  have hcall : load = .unpackTilize v.index v.output.dims.tileCols := by
    simp only [unpacking, tileBody, hkind, hcopy] at hload
    exact (Stmt.call.inj hload).symm
  have hdims := hm.copied hne
  have hspread : ¬v.SpreadsCopy := by
    rintro ⟨-, s, hs, -⟩
    simp [hkind] at hs
  rw [hcall] at hcalls
  exact
    { source := ⟨by rw [hdims], by rw [hdims], by rw [hm.countedA, hdims]⟩
      output := ⟨rfl, rfl, hm.countedOutput⟩
      calls := fun s hs => (hcalls s hs).1
      reads := by rw [hreads, reads_tilize hm hne (hcall ▸ rfl)]
      exact := fun s hs => (hcalls s hs).2
      inside := reads_lt hm hw hspread }

end StageView

/-! ## In a pipeline -/

section Built

variable {r : Registry} {specs : List StageSpec} {settings : Settings} {p : Pipeline}

theorem operandsInWords_of_build (hr : r.Declared)
    (hp : (Pipeline.build r specs settings).value = .ok p) : ∀ v ∈ p.views, v.OperandsInWords := by
  intro v hv
  have hm := measured_of_build hr hp v hv
  have hbatched := batched_of_build hr hp v hv
  obtain ⟨s, hs, rfl⟩ := List.mem_map.mp hv
  have hfirst : (p.view s).bufferA.tiles < wordLimit := tiles_operand_lt_of_build hr hp s.unpackedA
  have hinner : s.innerTiles < wordLimit := by
    by_cases hproduct : s.spec.arithmetic = .matmul
    · obtain ⟨-, -, hinner⟩ := hm.product hproduct
      have hinner : s.innerTiles = (p.view s).bufferA.dims.tileCols := hinner
      rw [hinner]
      rw [hm.countedA] at hfirst
      exact Nat.lt_of_le_of_lt (Nat.le_mul_of_pos_left _ hm.wholeA.tileRows_pos) hfirst
    · rw [(shape_of_build hr hp hs).2 hproduct]
      decide
  have hbatch : max s.batchSize 1 < wordLimit := by
    have hfits : s.batchSize ≤ s.capacity := hbatched.fits
    have hcapacity : s.capacity ≤ 16 := hbatched.capacity_le
    unfold wordLimit
    omega
  exact
    { fed := (ordered_of_build hp).fed _ hv
      tiles := tiles_output_lt_of_build hr hp _ hv
      batch := hbatch
      inner := hinner
      first := hfirst
      second := tiles_operand_lt_of_build hr hp s.unpackedB }

/-- A product reads its two sources from memory. -/
theorem sources_of_product (hr : r.Declared)
    (hp : (Pipeline.build r specs settings).value = .ok p) {s : Stage} (hs : s ∈ p.stages)
    (hproduct : s.spec.arithmetic = .matmul) :
    s.unpackedA = s.sourceA ∧ s.sourceB = some s.unpackedB := by
  have hcomb : Combination p.settings.platform s.spec :=
    combination_of_build hp _ (List.mem_map_of_mem hs)
  have hreuse : s.spec.loader.reuse = .none := by
    by_contra hne
    obtain ⟨-, hcopy | ⟨op, hop⟩⟩ := hcomb.reuse hne
    · simp [hproduct] at hcopy
    · simp [hproduct] at hop
  have hcount := hcomb.count
  obtain ⟨hsome, -⟩ := shape_of_build hr hp hs
  obtain ⟨id, hid⟩ : ∃ id, s.sourceB = some id := by
    rw [← Option.isSome_iff_exists, hsome]
    cases hb : s.spec.loader.sourceB <;>
      simp [Loader.fresh, hreuse, freshWanted, hproduct, hb] at hcount ⊢
  simp [Stage.unpackedA, Stage.unpackedB, Stage.fresh, hreuse, hid]

/-- **Products and tilizing loads find their tiles.** The code of a built pipeline runs its stages
one after the other. A product goes through the tiles of its output row by row and brings in, for
each of them, the tiles of the row of its first source and of the column of its second one, pair by
pair, with a computation at the place of the tile for each pair. A stage that tilizes starts at the
first tile of the row in its source and goes to the column of the tile. No part of an index
expression leaves a word, and every tile lies in its operand. -/
theorem tile_walks (hr : r.Declared) (hp : (Pipeline.build r specs settings).value = .ok p) :
    (∀ platform t, linesOf platform t 0 .single (p.lower.thread t).body =
      codeLines platform 0 (codeOf t .single (p.lower.thread t).body)) ∧
    (∀ t, (p.lower.thread t).steps t = p.views.flatMap (·.steps t)) ∧
    ∀ v ∈ p.views,
      (v.stage.spec.arithmetic = .matmul →
        v.ProductWalk v.bufferA.dims.tileRows v.bufferA.dims.tileCols v.bufferB.dims.tileCols) ∧
      (v.loader.kind = .tilize →
        v.TilizeWalk v.output.dims.tileRows v.output.dims.tileCols) := by
  refine ⟨fun _ _ => linesOf_eq .., p.steps_thread, fun v hv => ?_⟩
  have hm := measured_of_build hr hp v hv
  have hw := operandsInWords_of_build hr hp v hv
  refine ⟨fun hproduct => ?_, fun hkind => StageView.tilizeWalk hm hw hkind⟩
  obtain ⟨s, hs, rfl⟩ := List.mem_map.mp hv
  exact StageView.productWalk hm hw hproduct (sources_of_product hr hp hs hproduct)

end Built

/-! ## A product and a tilizing stage

The product has six tiles in batches of four, so that its second batch starts in the middle of a row
of three. -/

theorem tile_walks_wide :
    (∃ p, (Pipeline.build (columnRegistry ⟨⟨64, 96⟩, .float16b, 6, 12288⟩) productSpecs
        { fusedSettings with batchSize := 4 }).value = .ok p ∧
      ∃ v ∈ p.views, v.ProductWalk 2 2 3) ∧
    ∃ p, (Pipeline.build ⟨[columnInput]⟩ tilizedSpecs columnSettings).value = .ok p ∧
      ∃ v ∈ p.views, v.TilizeWalk 2 2 := by
  have hr : (columnRegistry ⟨⟨64, 96⟩, .float16b, 6, 12288⟩).Declared :=
    .input "b" ⟨64, 96⟩ .float16b none declared_columnInput rfl
  obtain ⟨p, hp, hproduct⟩ := exists_build_of_any (columnRegistry ⟨⟨64, 96⟩, .float16b, 6, 12288⟩)
    productSpecs { fusedSettings with batchSize := 4 }
    (fun p => p.views.any fun v => v.stage.spec.arithmetic == .matmul &&
      v.bufferA.dims == ⟨64, 64⟩ && v.bufferB.dims == ⟨64, 96⟩) (by decide +kernel)
  obtain ⟨q, hq, htilize⟩ := exists_build_of_any ⟨[columnInput]⟩ tilizedSpecs columnSettings
    (fun p => p.views.any fun v => v.loader.kind == .tilize && v.output.dims == ⟨64, 64⟩)
    (by decide +kernel)
  obtain ⟨v, hv, hcheck⟩ := List.any_eq_true.mp hproduct
  obtain ⟨w, hw, hcheck'⟩ := List.any_eq_true.mp htilize
  simp only [Bool.and_eq_true, beq_iff_eq] at hcheck hcheck'
  obtain ⟨⟨hmul, hA⟩, hB⟩ := hcheck
  obtain ⟨hkind, hO⟩ := hcheck'
  have hwalk := ((tile_walks hr hp).2.2 v hv).1 hmul
  have hwalk' := ((tile_walks declared_columnInput hq).2.2 w hw).2 hkind
  rw [hA, hB] at hwalk
  rw [hO] at hwalk'
  exact ⟨⟨p, hp, v, hv, hwalk⟩, q, hq, w, hw, hwalk'⟩

end TileFusion
